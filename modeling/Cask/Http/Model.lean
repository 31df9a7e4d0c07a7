import Cask.Lib.ByteImage

/-! # The request parser

`request.c` up to `parse_request`.  The parser runs on the bytes of a buffer whose memory
goes on after the received ones; `Buffer.data` is all of that memory, and nothing in the
parser's types keeps it from reading past `size`.

`parse_request` is resumable: it is called again with more bytes after `REQ_UF`, and starts
from the state, the read position and the headers it left in the request.  A C `int` is an
`Int`, with `asInt` where a wider value is converted or a difference may wrap around.
-/

namespace Cask.Http

open Storage

/-! ## Data -/

/-- Conversion to `int`: a value in range is kept, others wrap around. -/
def asInt (x : Int) : Int := if x.natAbs < 0x80000000 then x else x.bmod 0x100000000

/-- `buffer_t`; `data` is the memory from the data pointer on. -/
structure Buffer where
  size : Nat
  cap : Nat
  data : Image

/-- A buffer that received `bytes`, with `stale` in the memory behind them. -/
def Buffer.holding (bytes stale : List UInt8) : Buffer :=
  ⟨bytes.length, bytes.length + stale.length, Image.empty.write 0 (bytes ++ stale)⟩

/-- `string_t`, a range of the buffer. -/
structure Str where
  off : Int
  len : Int
  deriving DecidableEq, Repr

inductive HttpMethod where
  | get
  | head
  | post
  | put
  | delete
  | connect
  | options
  | trace
  | patch
  deriving DecidableEq, Repr

inductive HttpVersion where
  | http10
  | http11
  | http20
  deriving DecidableEq, Repr

structure HttpHeader where
  key : Str
  val : Str
  deriving DecidableEq, Repr

inductive RequestState where
  | init
  | headers
  | body
  | readComplete
  deriving DecidableEq, Repr

/-- `struct request`; the list of headers stands for the first `num_headers` entries of the
array, the others are never read. -/
structure Request where
  state : RequestState
  readBytes : Nat
  method : HttpMethod
  version : HttpVersion
  uri : Str
  headers : List HttpHeader
  body : Str
  deriving DecidableEq, Repr

/-- `zero_struct(c->req)` -/
def zeroed : Request := ⟨.init, 0, .get, .http10, ⟨0, 0⟩, [], ⟨0, 0⟩⟩

/-- `REQ_ERR`, `REQ_OK` and `REQ_UF`.  `trap` is a search for the end of a line that starts at
another place than the read position, in front of the buffer as a rule, because a read
position of 2 GiB or more does not fit an `int`; the model does not follow it further. -/
inductive ReqCode where
  | err
  | ok
  | uf
  | trap
  deriving DecidableEq, Repr

def maxHeaders : Nat := 32

def maxBody : Int := 128 * 1024

def ascii (s : String) : List UInt8 := s.toList.map fun c => UInt8.ofNat c.toNat

/-- `g_http_methods` -/
def httpMethods : List (HttpMethod × List UInt8) :=
  [(.get, ascii "GET"), (.head, ascii "HEAD"), (.post, ascii "POST"), (.put, ascii "PUT"),
    (.delete, ascii "DELETE"), (.connect, ascii "CONNECT"), (.options, ascii "OPTIONS"),
    (.trace, ascii "TRACE"),
    (.patch, ascii "PATCH")]

/-- `g_http_versions` -/
def httpVersions : List (HttpVersion × List UInt8) :=
  [(.http10, ascii "HTTP/1.0"), (.http11, ascii "HTTP/1.1"), (.http20, ascii "HTTP/2.0")]

/-- `g_http_versions[version].s` -/
def versionName (version : HttpVersion) : List UInt8 := (httpVersions.lookup version).getD []

def contentLength : List UInt8 := ascii "Content-Length"

def cr : UInt8 := 13

def lf : UInt8 := 10

/-! ## Tokens -/

/-- The loop of `span`: `left` bytes remain, the next one is at `pos`, and `i` were passed. -/
def spanLoop (data : Image) (c : UInt8) : Nat → Nat → Nat → Option Nat
  | 0, _, _ => none
  | left + 1, pos, i => if data.byte pos = c then some (i + 1) else spanLoop data c left (pos + 1) (i + 1)

/-- `span(s, c, len, off)`; a negative result is `none`. -/
def span (data : Image) (c : UInt8) (len off : Nat) : Option Nat :=
  spanLoop data c (len - off) off 0

/-- The loop of `split`: `left` bytes remain, the next one is the `stop`-th, the current token
starts at the `start`-th, and `more` further tokens may start. -/
def splitLoop (data : Image) (base : Nat) (off : Int) (len : Nat) (delim : UInt8) :
    Nat → Nat → Nat → Nat → List Str
  | left + 1, stop, start, more + 1 =>
    if data.byte (base + stop) = delim then
      ⟨start + off,
        (stop : Int) - start⟩ :: splitLoop data base off len delim left (stop + 1) (stop + 1) more
    else splitLoop data base off len delim left (stop + 1) start (more + 1)
  | _, _, start, _ => [⟨start + off, (len : Int) - start⟩]

/-- `split(s, len, off, delim, tokens, num_tokens)` with `s` at `base`, for at least one token. -/
def split (data : Image) (base : Nat) (len : Nat) (off : Int) (delim : UInt8) (numTokens : Nat) :
    List Str :=
  splitLoop data base off len delim len 0 0 (numTokens - 1)

/-- The bytes that `trim` removes. -/
def isBlank (c : UInt8) : Bool := c = 32 || c = 9 || c = cr || c = lf

def trimFront (data : Image) : Nat → Str → Str
  | 0, s => s
  | left + 1, s => if isBlank (data.byte s.off.toNat) then trimFront data left ⟨s.off + 1, s.len - 1⟩ else s

def trimBack (data : Image) : Nat → Str → Str
  | 0, s => s
  | left + 1, s =>
    if isBlank (data.byte (s.off + s.len - 1).toNat) then trimBack data left ⟨s.off, s.len - 1⟩ else s

def trim (data : Image) (s : Str) : Str :=
  let s := trimFront data s.len.toNat s
  trimBack data s.len.toNat s

/-- `strncmp(name, data + s.off, s.len) == 0` for a name of the length of `s`. -/
def isNamed (data : Image) (s : Str) (name : List UInt8) : Bool :=
  s.len = name.length && data.slice s.off.toNat name.length = name

/-! ## `strtol` -/

/-- `isspace` in the C locale. -/
def isSpace (c : UInt8) : Bool := c = 32 || (9 ≤ c && c ≤ 13)

def isDigit (c : UInt8) : Bool := 48 ≤ c && c ≤ 57

def digitsValue (digits : List UInt8) : Nat :=
  digits.foldl (fun value c => 10 * value + (c.toNat - 48)) 0

def longMax : Int := 0x7FFFFFFFFFFFFFFF

def longMin : Int := - 0x8000000000000000

/-- `strtol(text, NULL, 10)`: blanks, a sign, digits; clamped to `long`. -/
def strtol (text : List UInt8) : Int :=
  match text.dropWhile isSpace with
  | 45 :: rest => max longMin (- digitsValue (rest.takeWhile isDigit))
  | 43 :: rest => min longMax (digitsValue (rest.takeWhile isDigit))
  | rest => min longMax (digitsValue (rest.takeWhile isDigit))

/-- `(int)strtol(buf->data + off, NULL, 10)` -/
def numberAt (data : Image) (off : Int) : Int :=
  asInt (strtol (data.slice off.toNat (data.size - off.toNat)))

/-! ## The phases of `parse_request` -/

/-- The part of `parse_status_line` after the end of the line has been found. -/
def parseTokens (req : Request) (data : Image) (lineLen : Nat) : ReqCode × Request :=
  match split data 0 lineLen 0 32 3 with
  | [method, uri, version] =>
    -- the first entry of the table with the name
    match httpMethods.find? fun entry => isNamed data method entry.2 with
    | none => (.err, req)
    | some (method, _) =>
      match httpVersions.find? fun entry => isNamed data (trim data version) entry.2 with
      | none => (.err, req)
      | some (version, _) =>
        (.ok, { req with method := method, version := version, uri := uri, readBytes := lineLen })
  | _ => (.err, req)

def parseStatusLine (req : Request) (buf : Buffer) : ReqCode × Request :=
  match span buf.data lf (asInt buf.size).toNat 0 with
  | none => (.uf, req)
  | some lineLen => parseTokens req buf.data lineLen

/-- One header line of `len` bytes at `base`. -/
def parseHeader (data : Image) (base : Nat) (len : Nat) : Option HttpHeader :=
  match split data base len (asInt base) 58 2 with
  | [key, val] => some ⟨trim data key, trim data val⟩
  | _ => none

/-- `*p == '\r' && *(p+1) == '\n'` at the read position, which may be past the received bytes. -/
def atBlankLine (data : Image) (pos : Nat) : Bool := data.byte pos = cr && data.byte (pos + 1) = lf

/-- The loop of `parse_headers`; `left` more headers fit. -/
def headersLoop (buf : Buffer) : Nat → Request → ReqCode × Request
  | 0, req => (.ok, req)
  | left + 1, req =>
    if atBlankLine buf.data req.readBytes then (.ok, { req with readBytes := req.readBytes + 2 })
    else if asInt req.readBytes = req.readBytes then
      match span buf.data lf (asInt buf.size).toNat req.readBytes with
      | none => (.uf, req)
      | some lineLen =>
        match parseHeader buf.data req.readBytes lineLen with
        | none => (.err, req)
        | some header =>
          headersLoop buf left
            { req with headers := req.headers ++ [header], readBytes := req.readBytes + lineLen }
    -- the search starts in front of the buffer, or not at all
    else if asInt req.readBytes < asInt buf.size then (.trap, req)
    else (.uf, req)

def parseHeaders (req : Request) (buf : Buffer) : ReqCode × Request :=
  headersLoop buf (maxHeaders - req.headers.length) req

def findHeader (req : Request) (key : List UInt8) (buf : Buffer) : Option HttpHeader :=
  req.headers.find? fun header => isNamed buf.data header.key key

/-- `case REQUEST_STATE_BODY` and what it falls through to. -/
def parseBody (req : Request) (buf : Buffer) : ReqCode × Request :=
  if req.body.len = 0 then (.ok, { req with state := .readComplete })
  else
    let req := { req with readBytes := buf.size }
    -- what was received behind the start of the body, as an `int`
    if asInt (asInt req.readBytes - req.body.off) < req.body.len then (.uf, req)
    else (.ok, { req with state := .readComplete })

/-- The end of `case REQUEST_STATE_HEADERS`: the headers are complete. -/
def startBody (req : Request) (buf : Buffer) : ReqCode × Request :=
  match findHeader req contentLength buf with
  | none => parseBody { req with state := .body } buf
  | some cl =>
    let len := numberAt buf.data cl.val.off
    -- the only test: a negative length passes
    if len > maxBody then (.err, req)
    else parseBody { req with body := ⟨asInt req.readBytes, len⟩, state := .body } buf

/-- `case REQUEST_STATE_HEADERS` and what it falls through to. -/
def parseRest (req : Request) (buf : Buffer) : ReqCode × Request :=
  match parseHeaders req buf with
  | (.ok, req) => startBody req buf
  | (code, req) => (code, req)

/-- `parse_request(req)`.  On `REQ_OK` the connection becomes keep-alive if the version is 1.1. -/
def parseRequest (req : Request) (buf : Buffer) : ReqCode × Request :=
  match req.state with
  | .init =>
    match parseStatusLine req buf with
    | (.ok, req) => parseRest { req with state := .headers } buf
    | (code, req) => (code, req)
  | .headers => parseRest req buf
  | .body => parseBody req buf
  | .readComplete => (.ok, req)

end Cask.Http
