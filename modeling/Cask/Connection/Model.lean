import Cask.Connection.Buffer
import Cask.Event.Timer
import Cask.Lib.Fuel

/-! # Connections

`connection.c`, and `send_response` of `request.c`, for one connection.  A function takes the
connection and what is outside of it (`Io`), and gives both back; a connection that was closed
is `none`, as nothing may touch it any more.

What the kernel and the allocator answer is part of `Io`, a list for each kind of call.  A
list that is used up stands for the quiet case: `recv` would block, `send` accepts what it is
given, `realloc` and `epoll_ctl` go through.  The route callbacks are a parameter: each of them ends in exactly one
`send_response`, and may keep a state of its own.
-/

namespace Cask.Conn

open Storage Http Event Fuel

/-! ## Data -/

def timeout : UInt32 := 5000

def readChunk : Nat := 4096

def writeChunk : Nat := 4096

inductive ConnectionState where
  | stateIn
  | stateOut
  | stateClosed
  | stateError
  deriving DecidableEq, Repr

/-- `EPOLLIN|EPOLLET` or `EPOLLOUT|EPOLLET`. -/
inductive Interest where
  | epollin
  | epollout
  deriving DecidableEq, Repr

/-- The events of a callback that the connection looks at. -/
structure Events where
  epollin : Bool
  epollout : Bool
  deriving DecidableEq, Repr

/-- `struct connection`.  `eventActive` is the flag of the event, `keepAlive` the one flag of the
connection; the timer is in the event base. -/
structure Connection where
  state : ConnectionState
  eventActive : Bool
  keepAlive : Bool
  buffer : Buffer
  writeBytes : Nat
  req : Request

/-- What one `recv` gives: at least one byte, and not more than were asked for. -/
structure Chunk where
  bytes : List UInt8
  positive : 0 < bytes.length
  fits : bytes.length ≤ readChunk

inductive Recv where
  | data (chunk : Chunk)
  | again
  | closed
  | error

/-- `accept room`: the socket has room for `room + 1` bytes. -/
inductive Send where
  | accept (room : Nat)
  | again
  | error
  deriving DecidableEq, Repr

/-- The calls on the timer of the connection. -/
inductive TimerCall where
  | reset
  | cancel
  deriving DecidableEq, Repr

/-- The world outside of a connection: the answers to come, the descriptor's entry in the epoll
set, the bytes the socket has accepted, the calls on the timer, and the state of the callbacks. -/
structure Io (σ : Type) where
  recvs : List Recv
  sends : List Send
  reallocs : List (Option (List UInt8))
  ctls : List Bool
  interest : Option Interest
  sent : List UInt8
  timer : List TimerCall
  app : σ

variable {σ : Type}

/-! ## Events and timers -/

/-- `epoll_ctl(EPOLL_CTL_ADD)`, which fails for a descriptor that has an entry. -/
def addEvent (io : Io σ) (interest : Interest) : Status × Io σ :=
  if io.interest = none ∧ io.ctls.headD true then
    (.ok, { io with interest := some interest, ctls := io.ctls.tail })
  else (.err, { io with ctls := io.ctls.tail })

/-- `epoll_ctl(EPOLL_CTL_DEL)`, which fails for a descriptor that has no entry. -/
def delEvent (io : Io σ) : Status × Io σ :=
  if io.interest ≠ none ∧ io.ctls.headD true then (.ok, { io with interest := none, ctls := io.ctls.tail })
  else (.err, { io with ctls := io.ctls.tail })

/-- `close_connection(c)`; closing the descriptor takes its entry out of the epoll set. -/
def closeConnection (io : Io σ) : Option Connection × Io σ :=
  let io := (delEvent io).2
  (none, { io with interest := none, timer := io.timer ++ [.cancel] })

/-- `make_timer(TIMEOUT, TIMER_FLAG_ONESHOT, timeout_callback, c)` -/
def connectionTimer : Timer Unit Unit := makeTimer timeout timerFlagOneshot () ()

/-- `reset_connection(c)`; `add_timer` fails for an active timer only. -/
def resetConnection (c : Connection) (io : Io σ) : Status × Connection × Io σ :=
  let c := { c with req := zeroed, writeBytes := 0 }
  let io := { io with timer := io.timer ++ [.reset] }
  if connectionTimer.isActive then (.err, c, io)
  else if c.eventActive then
    match delEvent io with
    | (.ok, io) => (.ok, { c with eventActive := false }, io)
    | (.err, io) => (.ok, c, io)
  else (.ok, c, io)

/-! ## Reading and sending -/

/-- `begin_read(c)` -/
def beginRead (c : Connection) (io : Io σ) : Option Connection × Io σ :=
  match resetConnection c io with
  | (.err, _, io) => closeConnection io
  | (.ok, c, io) =>
    let c := { c with buffer := clearBuffer c.buffer, state := .stateIn, eventActive := false }
    -- `make_event` has cleared the flag
    match addEvent io .epollin with
    | (.ok, io) => (some { c with eventActive := true }, io)
    | (.err, io) => closeConnection io

/-- The last byte has been accepted. -/
def finishSend (c : Connection) (io : Io σ) : Option Connection × Io σ :=
  if c.keepAlive then beginRead c io else closeConnection io

/-- The loop of `send_data`, over the answers of `send`.  Behind the end of the list every chunk is
accepted, until nothing is left. -/
def sendLoop : List Send → Connection → Io σ → Option Connection × Io σ
  | [], c, io =>
    let rem := c.buffer.size - c.writeBytes
    finishSend { c with writeBytes := c.writeBytes + rem }
      { io with sends := [], sent := io.sent ++ c.buffer.data.slice c.writeBytes rem }
  | .again :: sends, c, io => (some c, { io with sends := sends })
  | .error :: sends, _, io => closeConnection { io with sends := sends }
  | .accept room :: sends, c, io =>
    let rem := c.buffer.size - c.writeBytes
    let len := if rem < writeChunk then rem else writeChunk
    let numSent := min (room + 1) len
    let io :=
      { io with sends := sends, sent := io.sent ++ c.buffer.data.slice c.writeBytes numSent }
    let c := { c with writeBytes := c.writeBytes + numSent }
    if c.writeBytes = c.buffer.size then finishSend c io else sendLoop sends c io

def sendData (c : Connection) (io : Io σ) : Option Connection × Io σ := sendLoop io.sends c io

/-- `begin_send(c)` -/
def beginSend (c : Connection) (io : Io σ) : Option Connection × Io σ :=
  match resetConnection c io with
  | (.err, _, io) => closeConnection io
  | (.ok, c, io) =>
    let c := { c with state := .stateOut, eventActive := false }
    match addEvent io .epollout with
    | (.ok, io) => sendData { c with eventActive := true } io
    | (.err, io) => closeConnection io

/-! ## Responses -/

inductive HttpStatus where
  | status200
  | status400
  | status404
  | status500
  deriving DecidableEq, Repr

/-- `g_http_statuses` -/
def statusText : HttpStatus → List UInt8
  | .status200 => ascii "200 OK"
  | .status400 => ascii "400 Bad Request"
  | .status404 => ascii "404 Not Found"
  | .status500 => ascii "500 Internal Server Error"

def crlf : List UInt8 := [cr, lf]

/-- `%lu` -/
def decimal (n : Nat) : List UInt8 := (Nat.toDigits 10 n).map fun c => UInt8.ofNat c.toNat

/-- `"%s %s\r\n"` -/
def statusLine (version : HttpVersion) (status : HttpStatus) : List UInt8 :=
  versionName version ++ ascii " " ++ statusText status ++ crlf

/-- `"%s: keep-alive\r\n"` -/
def connectionLine : List UInt8 := ascii "Connection" ++ ascii ": keep-alive" ++ crlf

/-- `"%s: timeout=5\r\n"` -/
def keepAliveLine : List UInt8 := ascii "Keep-Alive" ++ ascii ": timeout=5" ++ crlf

/-- `"%s: %lu\r\n\r\n"` -/
def contentLengthLine (len : Nat) : List UInt8 :=
  contentLength ++ ascii ": " ++ decimal len ++ crlf ++ crlf

/-- `push_buffer`, whose result `send_response` does not look at. -/
def push (out : Buffer × List (Option (List UInt8))) (bytes : List UInt8) :
    Buffer × List (Option (List UInt8)) :=
  (pushBuffer out.2 out.1 bytes).2

/-- The buffer that `send_response` fills. -/
def fillResponse (version : HttpVersion) (keepAlive : Bool) (status : HttpStatus)
    (body : List UInt8) (out : Buffer × List (Option (List UInt8))) :
    Buffer × List (Option (List UInt8)) :=
  let out := push (clearBuffer out.1, out.2) (statusLine version status)
  let out := if keepAlive then push (push out connectionLine) keepAliveLine else out
  -- the line that ends the header block
  let out := push out (contentLengthLine body.length)
  if body.length ≠ 0 then push out body else out

/-- `send_response(req, status, body, len)` -/
def sendResponse (c : Connection) (io : Io σ) (status : HttpStatus) (body : List UInt8) :
    Option Connection × Io σ :=
  let out := fillResponse c.req.version c.keepAlive status body (c.buffer, io.reallocs)
  beginSend { c with buffer := out.1 } { io with reallocs := out.2 }

/-! ## Receiving -/

/-- A read position that the parser model does not follow, or no fuel left. -/
inductive Stuck where
  | spent
  | trap
  deriving DecidableEq, Repr

/-- What a matched route, or `route_404`, answers. -/
abbrev Callback (σ : Type) := σ → Request → Buffer → HttpStatus × List UInt8 × σ

variable (callback : Callback σ)

/-- `parse_request` returned `REQ_OK`: the connection may become keep-alive, and the route's
callback answers. -/
def answer (c : Connection) (io : Io σ) (req : Request) : Option Connection × Io σ :=
  let c := { c with req := req, keepAlive := c.keepAlive || req.version == .http11 }
  let (status, body, app) := callback io.app req c.buffer
  sendResponse c { io with app := app } status body

/-- `recv` would block. -/
def onBlocked (c : Connection) (io : Io σ) :
    Except Stuck (Next (Connection × Io σ) (Option Connection × Io σ)) :=
  match parseRequest c.req c.buffer with
  | (.ok, req) => .ok (.done (answer callback c io req))
  | (.err, _) => .ok (.done (closeConnection io))
  -- the loop calls `recv` again at once
  | (.uf, req) => .ok (.again ({ c with req := req }, io))
  | (.trap, _) => .error .trap

/-- The room for one more chunk. -/
def reserve (reallocs : List (Option (List UInt8))) (buf : Buffer) :
    Status × Buffer × List (Option (List UInt8)) :=
  if buf.size + readChunk > buf.cap then resizeBuffer reallocs buf (buf.size + readChunk) else (.ok, buf, reallocs)

/-- `recv` and what follows, with room for a chunk. -/
def receive (c : Connection) (io : Io σ) :
    Except Stuck (Next (Connection × Io σ) (Option Connection × Io σ)) :=
  match io.recvs with
  | .data chunk :: recvs =>
    .ok (.again ({ c with buffer := appendBytes c.buffer chunk.bytes }, { io with recvs := recvs }))
  | .closed :: recvs => .ok (.done (closeConnection { io with recvs := recvs }))
  | .error :: recvs => .ok (.done (closeConnection { io with recvs := recvs }))
  | .again :: recvs => onBlocked callback c { io with recvs := recvs }
  | [] => onBlocked callback c io

/-- One round of the loop of `read_data`. -/
def readRound (cur : Connection × Io σ) :
    Except Stuck (Next (Connection × Io σ) (Option Connection × Io σ)) :=
  match reserve cur.2.reallocs cur.1.buffer with
  | (.err, _, reallocs) => .ok (.done (closeConnection { cur.2 with reallocs := reallocs }))
  | (.ok, buffer, reallocs) => receive callback { cur.1 with buffer := buffer } { cur.2 with reallocs := reallocs }

def readData (fuel : Nat) (c : Connection) (io : Io σ) : Except Stuck (Option Connection × Io σ) :=
  loop .spent (readRound callback) fuel (c, io)

/-- `io_callback(fd, events, c)` -/
def ioCallback (fuel : Nat) (events : Events) (c : Connection) (io : Io σ) :
    Except Stuck (Option Connection × Io σ) :=
  match c.state with
  | .stateIn => if events.epollin then readData callback fuel c io else .ok (closeConnection io)
  | .stateOut => if events.epollout then .ok (sendData c io) else .ok (closeConnection io)
  | .stateClosed => .ok (closeConnection io)
  | .stateError => .ok (closeConnection io)

end Cask.Conn
