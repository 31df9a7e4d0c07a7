import Cask.Http.ContentLength
import Cask.Http.Split

/-! # Requests that are written and parsed

A request as its parts, the bytes it is written as, and the proof that the parser takes the
same parts out of these bytes.
-/

namespace Cask.Http

open Storage

/-! ## Messages -/

structure Message where
  method : HttpMethod
  uri : List UInt8
  version : HttpVersion
  headers : List (List UInt8 × List UInt8)
  body : List UInt8

def methodName (method : HttpMethod) : List UInt8 := (httpMethods.lookup method).getD []

/-- `key: SP value CRLF` -/
def headerLine (header : List UInt8 × List UInt8) : List UInt8 :=
  header.1 ++ [58, 32] ++ header.2 ++ [cr, lf]

/-- `METHOD SP uri SP version CR` -/
def requestLine (message : Message) : List UInt8 :=
  methodName message.method ++ [32] ++ message.uri ++ [32] ++ versionName message.version ++ [cr]

def serialise (message : Message) : List UInt8 :=
  requestLine message ++ [lf] ++ message.headers.flatMap headerLine ++ [cr, lf] ++ message.body

/-- No blank at either end. -/
def Sharp (bytes : List UInt8) : Prop :=
  ∀ c, bytes.head? = some c ∨ bytes.getLast? = some c → isBlank c = false

/-- A message whose parts cannot be mistaken for one another. -/
structure Message.Plain (message : Message) : Prop where
  uri : 32 ∉ message.uri ∧ lf ∉ message.uri
  count : message.headers.length < maxHeaders
  keys : ∀ header ∈ message.headers, 58 ∉ header.1 ∧ lf ∉ header.1 ∧ Sharp header.1
  values : ∀ header ∈ message.headers, lf ∉ header.2 ∧ Sharp header.2
  limit : message.body.length ≤ maxBody
  length : match message.headers.find? fun header => header.1 = contentLength with
    | some header => Digits header.2 ∧ digitsValue header.2 = message.body.length
    | none => message.body = []

variable {data : Image} {off : Nat} {buf : Buffer} {req : Request}

/-! ## Bytes in their places -/

theorem holds_byte_mem {bytes : List UInt8} {i : Nat} (holds : data.Holds off bytes) (low : off ≤ i)
    (high : i < off + bytes.length) : data.byte i ∈ bytes := by
  have byte := holds (i - off) (by omega)
  rw [show off + (i - off) = i by omega, List.getD_eq_getElem _ _ (by omega)] at byte
  rw [byte]
  exact List.getElem_mem _

theorem span_holds {bytes : List UInt8} {c : UInt8} {len : Nat} (holds : data.Holds off (bytes ++ [c]))
    (absent : c ∉ bytes) (bound : off + bytes.length < len) : span data c len off = some (bytes.length + 1) := by
  obtain ⟨first, last⟩ := holds.append
  rw [span_some]
  refine ⟨by omega, by omega, ?_, fun i low high same => absent ?_⟩
  · have byte := last 0 (by simp)
    rwa [Nat.add_zero] at byte
  · rw [← same]
    exact holds_byte_mem first low (by omega)

theorem text_holds {bytes : List UInt8} {s : Str} (holds : data.Holds off bytes)
    (start : s.off = off) (len : s.len = bytes.length) : text data s = bytes := by
  rw [text, start, len, Int.toNat_natCast, Int.toNat_natCast]
  exact holds.slice

theorem Sharp.dropWhile {core : List UInt8} (sharp : Sharp core) (back : List UInt8) (some : core ≠ []) :
    (core ++ back).dropWhile isBlank = core ++ back := by
  cases core with
  | nil => exact absurd rfl some
  | cons c core => simp [sharp c (.inl rfl)]

theorem Sharp.rdropWhile {core back : List UInt8} (sharp : Sharp core)
    (blankBack : ∀ c ∈ back, isBlank c = true) : (core ++ back).rdropWhile isBlank = core := by
  have behind : (core ++ back).rdropWhile isBlank = core.rdropWhile isBlank := by
    rw [List.rdropWhile, List.reverse_append, List.dropWhile_append_of_pos (by simpa using blankBack)]
    rfl
  rw [behind, List.rdropWhile_eq_self_iff]
  intro some
  simp [sharp _ (.inr (List.getLast?_eq_some_getLast some))]

/-- A range of blanks, a text and blanks again is trimmed to the text. -/
theorem trim_holds {front core back : List UInt8} {s : Str}
    (holds : data.Holds off (front ++ core ++ back)) (start : s.off = off)
    (len : s.len = (front ++ core ++ back).length) (blankFront : ∀ c ∈ front, isBlank c = true)
    (blankBack : ∀ c ∈ back, isBlank c = true) (sharp : Sharp core) :
    text data (trim data s) = core := by
  rw [(trim_text data (by omega) (by omega)).1, text_holds holds start len, List.append_assoc,
    List.dropWhile_append_of_pos blankFront]
  by_cases empty : core = []
  · -- all of the range is blank
    subst empty
    have blank : back.dropWhile isBlank = [] := List.dropWhile_eq_nil_iff.mpr blankBack
    simp [blank]
  · rw [sharp.dropWhile back empty]
    exact sharp.rdropWhile blankBack

theorem isNamed_iff {s : Str} {name : List UInt8} (positive : 0 ≤ s.len) :
    isNamed data s name = true ↔ text data s = name := by
  simp only [isNamed, Bool.and_eq_true, decide_eq_true_eq]
  constructor
  · rintro ⟨len, same⟩
    rw [text, len, Int.toNat_natCast]
    exact same
  · intro same
    have length := text_length data s
    rw [same] at length
    have len : s.len = name.length := by omega
    refine ⟨len, ?_⟩
    rw [text, len, Int.toNat_natCast] at same
    exact same

theorem isNamed_eq {s : Str} (positive : 0 ≤ s.len) (name : List UInt8) :
    isNamed data s name = decide (text data s = name) := by
  rw [Bool.eq_iff_iff, isNamed_iff positive, decide_eq_true_eq]

section Split

variable {base len stop left more : Nat} {origin : Int} {delim : UInt8} {token : List UInt8}

theorem splitLoop_token (holds : data.Holds (base + stop) (token ++ [delim]))
    (absent : delim ∉ token) :
    splitLoop data base origin len delim (left + 1 + token.length) stop stop (more + 1) =
      ⟨stop + origin, token.length⟩ :: splitLoop data base origin len delim left
      (stop + token.length + 1)
        (stop + token.length + 1) more := by
  obtain ⟨first, last⟩ := holds.append
  have here : data.byte (base + (stop + token.length)) = delim := by
    have byte := last 0 (by simp)
    rwa [Nat.add_zero, Nat.add_assoc] at byte
  rw [splitLoop_skip fun i bound same => absent ?_, splitLoop_delim here]
  · congr 2
    push_cast
    omega
  · rw [← same, ← Nat.add_assoc]
    exact holds_byte_mem first (by omega) (by omega)

theorem splitLoop_end {start : Nat} :
    splitLoop data base origin len delim left stop start 0 =
      [⟨start + origin, (len : Int) - start⟩] := by
  cases left <;> rfl

end Split

/-! ## The request line -/

theorem find_method (method : HttpMethod) :
    (httpMethods.find? fun entry => methodName method = entry.2) =
      some (method, methodName method) := by
  cases method <;> decide +kernel

theorem find_version (version : HttpVersion) :
    (httpVersions.find? fun entry => versionName version = entry.2) =
      some (version, versionName version) := by
  cases version <;> decide +kernel

theorem methodName_plain (method : HttpMethod) :
    32 ∉ methodName method ∧ lf ∉ methodName method := by
  cases method <;> decide +kernel

theorem versionName_plain (version : HttpVersion) :
    lf ∉ versionName version ∧ Sharp (versionName version) := by
  have sharp : ∀ name : List UInt8, (∀ c ∈ name, isBlank c = false) → Sharp name := by
    rintro name none c (first | last)
    · exact none c (List.mem_of_head? first)
    · exact none c (List.mem_of_getLast? last)
  cases version <;> exact ⟨by decide +kernel, sharp _ (by decide +kernel)⟩

theorem lf_not_mem_requestLine {message : Message} (plain : message.Plain) :
    lf ∉ requestLine message := by
  have method := (methodName_plain message.method).2
  have version := (versionName_plain message.version).1
  have uri := plain.uri.2
  simp only [requestLine, List.mem_append, List.mem_singleton, not_or]
  exact ⟨⟨⟨⟨⟨method, by decide⟩, uri⟩, by decide⟩, version⟩, by decide⟩

/-- The three tokens of a request line. -/
theorem split_requestLine {message : Message} (plain : message.Plain)
    (holds : data.Holds 0 (requestLine message ++ [lf])) :
    ∃ method uri version, split data 0 ((requestLine message).length + 1) 0 32 3 =
      [method, uri, version] ∧
      0 ≤ method.len ∧ 0 ≤ version.off ∧ 0 ≤ version.len ∧
      text data method = methodName message.method ∧
      text data uri = message.uri ∧ text data (trim data version) =
      versionName message.version := by
  have parts : requestLine message ++ [lf] = (methodName message.method ++ [32]) ++
      ((message.uri ++ [32]) ++ ([] ++ versionName message.version ++ [cr, lf])) := by
      simp [requestLine]
  have total : (requestLine message).length + 1 =
      ((versionName message.version).length + 2) + 1 + message.uri.length + 1 + (methodName message.method).length := by
    simp only [requestLine, List.length_append, List.length_singleton]
    omega
  rw [parts] at holds
  obtain ⟨holdsMethod, rest⟩ := holds.append
  obtain ⟨holdsUri, holdsVersion⟩ := rest.append
  simp only [List.length_append, List.length_singleton, Nat.zero_add] at holdsUri holdsVersion
  have first : data.Holds (0 + 0) (methodName message.method ++ [32]) := holdsMethod
  have second : data.Holds (0 + (0 + (methodName message.method).length + 1)) (message.uri ++ [32]) := by
    simpa using holdsUri
  generalize (requestLine message).length + 1 = len at total
  have tokens : split data 0 len 0 32 3 = splitLoop data 0 0 len 32
      (((versionName message.version).length + 2) + 1 + message.uri.length + 1 + (methodName message.method).length)
      0 0 (1 + 1) := by rw [split, ← total]
  -- two tokens end at a space, the third one takes the rest of the line
  rw [splitLoop_token first (methodName_plain _).1, splitLoop_token second plain.uri.1,
    splitLoop_end] at tokens
  refine ⟨_, _, _, tokens, ?_, ?_, ?_, text_holds first.append.1 ?_ ?_,
    text_holds second.append.1 ?_ ?_,
    trim_holds holdsVersion ?_ ?_ (by simp) (by decide +kernel) (versionName_plain _).2⟩
  all_goals simp only [List.length_append, List.length_nil, List.length_cons]
  all_goals omega

theorem find_named {α : Type} {s : Str} {name : List UInt8} (table : List (α × List UInt8))
    (positive : 0 ≤ s.len) (same : text data s = name) :
    (table.find? fun entry => isNamed data s entry.2) =
      table.find? fun entry => name = entry.2 := by
  simp only [isNamed_eq positive, same]

theorem parseTokens_requestLine {message : Message} (plain : message.Plain)
    (holds : data.Holds 0 (requestLine message ++ [lf])) :
    ∃ uri, text data uri = message.uri ∧ parseTokens req data ((requestLine message).length + 1) =
      (.ok, { req with
        method := message.method, version := message.version, uri := uri,
        readBytes := (requestLine message).length + 1 }) := by
  obtain ⟨method, uri, version, tokens, methodLen, low, positive, methodText, uriText, versionText⟩ :=
    split_requestLine plain holds
  have versionLen : 0 ≤ (trim data version).len := (trim_trimmed low positive).len
  refine ⟨uri, uriText, ?_⟩
  rw [parseTokens, tokens]
  dsimp only
  rw [find_named httpMethods methodLen methodText, find_method]
  dsimp only
  rw [find_named httpVersions versionLen versionText, find_version]

/-! ## The header lines -/

section HeaderLine

variable {header : List UInt8 × List UInt8}

/-- A header line without its line feed. -/
def headerText (header : List UInt8 × List UInt8) : List UInt8 :=
  header.1 ++ [58] ++ ([32] ++ header.2 ++ [cr])

theorem headerLine_eq (header : List UInt8 × List UInt8) :
    headerLine header = headerText header ++ [lf] := by
  simp [headerLine, headerText]

theorem parseHeader_headerLine (near : off < 2 ^ 31)
    (key : 58 ∉ header.1 ∧ lf ∉ header.1 ∧ Sharp header.1) (value : lf ∉ header.2 ∧ Sharp header.2)
    (holds : data.Holds off (headerLine header)) :
    ∃ parsed, parseHeader data off (headerLine header).length = some parsed ∧
      text data parsed.key = header.1 ∧
      text data parsed.val = header.2 := by
  have parts : headerLine header = (header.1 ++ [58]) ++ ([32] ++ header.2 ++ [cr, lf]) := by
    simp [headerLine]
  have total : (headerLine header).length = (header.2.length + 3) + 1 + header.1.length := by
    simp only [headerLine, List.length_append, List.length_cons, List.length_nil]
    omega
  rw [parts] at holds
  obtain ⟨holdsKey, holdsValue⟩ := holds.append
  simp only [List.length_append, List.length_singleton] at holdsValue
  have first : data.Holds (off + 0) (header.1 ++ [58]) := holdsKey
  generalize (headerLine header).length = len at total
  have tokens : split data off len off 58 2 =
      splitLoop data off off len 58 ((header.2.length + 3) + 1 + header.1.length) 0 0 (0 + 1) := by
        rw [split, ← total]
  -- the key ends at the first colon, and the value takes the rest
  rw [splitLoop_token first key.1, splitLoop_end] at tokens
  rw [parseHeader, asInt_nat near, tokens]
  have wholeKey : data.Holds off ([] ++ header.1 ++ []) := by simpa using holdsKey.append.1
  refine ⟨_, rfl, trim_holds wholeKey ?_ ?_ (by simp) (by simp) key.2.2,
    trim_holds holdsValue ?_ ?_ (by decide +kernel) (by decide +kernel) value.2⟩
  all_goals simp only [List.length_append, List.length_nil, List.length_cons]
  all_goals omega

theorem lf_not_mem_headerText (key : lf ∉ header.1) (value : lf ∉ header.2) :
    lf ∉ headerText header := by
  simp only [headerText, List.mem_append, List.mem_singleton, not_or]
  exact ⟨⟨key, by decide⟩, ⟨by decide, value⟩, by decide⟩

/-- A header line does not start like a blank line. -/
theorem headerLine_not_blank (sharp : Sharp header.1)
    (holds : data.Holds off (headerLine header)) : atBlankLine data off = false := by
  have first : isBlank (data.byte off) = false := by
    have byte := holds 0 (by simp [headerLine])
    rw [Nat.add_zero] at byte
    rw [byte]
    cases bytes : header.1 with
    | nil => simp [headerLine, bytes]; decide
    | cons c rest =>
      have same : (headerLine header).getD 0 0 = c := by simp [headerLine, bytes]
      rw [same]
      exact sharp c (.inl (by rw [bytes]; rfl))
  rw [Bool.eq_false_iff]
  intro blank
  rw [(atBlankLine_iff.mp blank).1] at first
  exact absurd first (by decide)

end HeaderLine

/-- The texts of a header. -/
def HttpHeader.texts (data : Image) (header : HttpHeader) : List UInt8 × List UInt8 :=
  (text data header.key, text data header.val)

/-- The scan reads the header lines that were written and stops behind the blank line. -/
theorem scan_headers {headers : List (List UInt8 × List UInt8)} (left : Nat) (req : Request) (small : buf.size < 2 ^ 31)
    (keys : ∀ header ∈ headers, 58 ∉ header.1 ∧ lf ∉ header.1 ∧ Sharp header.1)
    (values : ∀ header ∈ headers, lf ∉ header.2 ∧ Sharp header.2)
    (holds : buf.data.Holds req.readBytes (headers.flatMap headerLine ++ [cr, lf]))
    (bound : req.readBytes + (headers.flatMap headerLine ++ [cr, lf]).length ≤ buf.size) (room : headers.length < left) :
    ∃ parsed, scan buf left req = (.ok, { req with
        headers := req.headers ++ parsed, readBytes :=
          req.readBytes + (headers.flatMap headerLine).length + 2 }) ∧
      parsed.map (·.texts buf.data) = headers ∧ ∀ header ∈ parsed, FromLine buf header := by
  have seen := seen_eq small
  induction headers generalizing left req with
  | nil =>
    obtain ⟨left, rfl⟩ := Nat.exists_eq_succ_of_ne_zero (Nat.ne_of_gt room)
    simp only [List.flatMap_nil, List.nil_append, List.length_cons, List.length_nil] at holds bound
    -- no header left: the blank line ends the block
    have blank : Blank buf req.readBytes := by
      refine ⟨by omega, atBlankLine_iff.mpr ⟨?_, ?_⟩⟩
      · exact holds 0 (by decide)
      · exact holds 1 (by decide)
    refine ⟨[], ?_, rfl, fun _ member => (List.not_mem_nil member).elim⟩
    rw [scan_blank blank]
    simp
  | cons header headers ih =>
    obtain ⟨left, rfl⟩ :=
      Nat.exists_eq_succ_of_ne_zero (Nat.ne_of_gt (Nat.lt_of_le_of_lt (Nat.zero_le _) room))
    simp only [List.flatMap_cons, List.append_assoc] at holds bound
    rw [List.length_append] at bound
    obtain ⟨holdsLine, holdsRest⟩ := holds.append
    have key := keys header (by simp)
    have value := values header (by simp)
    have length : (headerLine header).length = (headerText header).length + 1 := by
      rw [headerLine_eq]; simp
    have near : req.readBytes < 2 ^ 31 := by omega
    -- one line is read, and the rest is the block behind it
    have line : span buf.data lf buf.seen req.readBytes = some (headerLine header).length := by
      rw [length]
      rw [headerLine_eq] at holdsLine
      exact span_holds holdsLine (lf_not_mem_headerText key.2.1 value.1) (by omega)
    have notBlank : ¬ Blank buf req.readBytes := by
      intro blank
      have differ := headerLine_not_blank key.2.2 holdsLine
      rw [blank.2] at differ
      cases differ
    obtain ⟨parsedHeader, parsed, keyText, valueText⟩ :=
      parseHeader_headerLine near key value holdsLine
    obtain ⟨rest, scanned, texts, fromLines⟩ := ih left
      (req.push parsedHeader (headerLine header).length)
      (fun h member => keys h (List.mem_cons_of_mem _ member))
      (fun h member => values h (List.mem_cons_of_mem _ member))
      holdsRest (by simp only [Request.push]; omega) (by simpa using room)
    refine ⟨parsedHeader :: rest, ?_, ?_, ?_⟩
    · rw [scan_line notBlank near line, parsed]
      dsimp only
      rw [scanned]
      simp [Request.push, Nat.add_assoc]
    · rw [List.map_cons, texts, HttpHeader.texts, keyText, valueText]
    · intro h member
      rcases List.mem_cons.mp member with rfl | later
      · exact ⟨req.readBytes, _, near, line, parsed⟩
      · exact fromLines h later

/-! ## The whole request -/

theorem FromLine.within {header : HttpHeader} (fromLine : FromLine buf header) :
    header.Within buf.size := by
  obtain ⟨pos, len, near, line, parsed⟩ := fromLine
  have bound := (span_some.mp line).2.1
  have inside := seen_le buf
  exact parseHeader_within near (by omega) parsed

/-- A header is found by its name in the texts. -/
theorem findHeader_texts {headers : List (List UInt8 × List UInt8)}
    (texts : req.headers.map (·.texts buf.data) = headers)
    (fromLines : ∀ header ∈ req.headers, FromLine buf header) :
    (findHeader req contentLength buf).map (·.texts buf.data) =
      headers.find? fun header => header.1 = contentLength := by
  have sameFind : findHeader req contentLength buf =
      req.headers.find? ((fun header => header.1 = contentLength) ∘ (·.texts buf.data)) :=
    List.find?_congr fun header member =>
      isNamed_eq (fromLines header member).within.1.2.1 contentLength
  rw [sameFind, ← texts, List.find?_map]

/-- The position behind the blank line. -/
def bodyStart (message : Message) : Nat :=
  (requestLine message).length + 1 + (message.headers.flatMap headerLine).length + 2

/-- The request behind the request line of a message. -/
def afterLine (message : Message) (uri : Str) : Request :=
  ⟨.headers, (requestLine message).length + 1, message.method, message.version, uri, [], ⟨0, 0⟩⟩

theorem parseHeaders_of_scan {q : Request}
    (scanned : scan buf (maxHeaders - req.headers.length) req = (.ok, q)) :
    parseHeaders req buf = (.ok, q) := by
  rw [parseHeaders, headersLoop_eq, scanned]
  rfl

/-- A header block that the received bytes complete. -/
theorem parseRequest_scanDone {q : Request} (isOpen : req.Open) (done : scanDone req buf = some q) :
    parseRequest req buf = startBody q buf := by
  obtain ⟨p, entered, -, scanned⟩ := scanDone_some.mp done
  exact (parseRequest_entered isOpen entered).trans (parseRest_ok (parseHeaders_of_scan scanned))

section Message

variable {message : Message} (plain : message.Plain) (small : buf.size < 2 ^ 31)

include plain small

/-- The request line and the header block of a message. -/
theorem parse_head (inside : bodyStart message ≤ buf.size) (holdsLine : buf.data.Holds 0 (requestLine message ++ [lf]))
    (holdsHeaders : buf.data.Holds ((requestLine message).length + 1) (message.headers.flatMap headerLine ++ [cr, lf])) :
    ∃ q, scanDone zeroed buf = some q ∧ q.method = message.method ∧ q.version = message.version ∧
      text buf.data q.uri = message.uri ∧ q.headers.map (·.texts buf.data) = message.headers ∧
      (∀ header ∈ q.headers, FromLine buf header) ∧ q.body = ⟨0, 0⟩ ∧
      q.readBytes = bodyStart message := by
  have seen := seen_eq small
  have enough : (requestLine message).length + 1 + (message.headers.flatMap headerLine).length + 2 ≤ buf.size := inside
  have line : span buf.data lf buf.seen 0 = some ((requestLine message).length + 1) :=
    span_holds holdsLine (lf_not_mem_requestLine plain) (by omega)
  have request : ∃ uri, text buf.data uri = message.uri ∧
      parseTokens zeroed buf.data ((requestLine message).length + 1) = _ :=
      parseTokens_requestLine plain holdsLine
  obtain ⟨uri, uriText, accepted⟩ := request
  have entered : enter zeroed buf = (.ok, afterLine message uri) := enter_accepted rfl line accepted
  obtain ⟨parsed, scanned, texts, fromLines⟩ :=
    scan_headers maxHeaders (afterLine message uri) small plain.keys
    plain.values holdsHeaders (by simp only [afterLine, List.length_append, List.length_cons, List.length_nil]; omega)
    plain.count
  exact ⟨_, scanDone_some.mpr ⟨_, entered, rfl, scanned⟩, rfl, rfl, uriText, texts,
    fromLines, rfl, rfl⟩

omit small in
/-- The `Content-Length` of a message is the length of its body. -/
theorem startBody_announced {q : Request}
    (texts : q.headers.map (·.texts buf.data) = message.headers)
    (fromLines : ∀ header ∈ q.headers, FromLine buf header) (empty : q.body = ⟨0, 0⟩) :
    (message.body = [] ∧ startBody q buf = (.ok, { q with state := .readComplete })) ∨
      startBody q buf = parseBody (q.withBody message.body.length) buf := by
  have sameFind := findHeader_texts texts fromLines
  have length := plain.length
  cases found : findHeader q contentLength buf with
  | none =>
    rw [found, Option.map_none] at sameFind
    rw [← sameFind] at length
    refine .inl ⟨length, ?_⟩
    rw [startBody_none found, parseBody, if_pos (by simp [empty])]
  | some cl =>
    rw [found, Option.map_some] at sameFind
    rw [← sameFind] at length
    obtain ⟨digits, value⟩ : Digits (text buf.data cl.val) ∧
        digitsValue (text buf.data cl.val) = message.body.length := length
    have limit := plain.limit
    have bound : maxBody = 131072 := rfl
    have positive : 0 < cl.val.len := by
      have chars := text_length buf.data cl.val
      have nonempty := List.length_pos_iff.mpr digits.1
      omega
    obtain ⟨low, ends⟩ := (fromLines cl (List.mem_of_find?_eq_some found)).value_ends positive
    -- the value is digits up to the end of its line
    have number : numberAt buf.data cl.val.off = message.body.length := by
      rw [numberAt_digits low digits ends, value]
      exact narrowed_eq_iff.mpr (by omega)
    have accepted : announced buf.data cl = some (message.body.length : Int) := by
      rw [announced, number, if_neg (by omega)]
    exact .inr (startBody_accepted found accepted)

/-- The body of a message. -/
theorem startBody_message {q : Request} (texts : q.headers.map (·.texts buf.data) = message.headers)
    (fromLines : ∀ header ∈ q.headers, FromLine buf header) (empty : q.body = ⟨0, 0⟩)
    (position : q.readBytes + message.body.length = buf.size)
    (holdsBody : buf.data.Holds q.readBytes message.body) :
    ∃ r, startBody q buf = (.ok, r) ∧ r.method = q.method ∧ r.version = q.version ∧ r.uri = q.uri ∧
      r.headers = q.headers ∧ text buf.data r.body = message.body ∧ r.state = .readComplete := by
  rcases startBody_announced plain texts fromLines empty with ⟨none, done⟩ | announced
  · refine ⟨_, done, rfl, rfl, rfl, rfl, ?_, rfl⟩
    rw [none]
    dsimp only
    rw [empty]
    rfl
  · have bodyText : text buf.data (q.withBody message.body.length).body = message.body :=
      text_holds holdsBody (asInt_nat (by omega)) rfl
    rw [announced]
    rcases parseBody_cases (q.withBody message.body.length) buf with
      ⟨-, same⟩ | ⟨-, short, -⟩ | ⟨-, -, same⟩
    · exact ⟨_, same, rfl, rfl, rfl, rfl, bodyText, rfl⟩
    · have received : asInt (asInt buf.size - asInt q.readBytes) = buf.size - q.readBytes :=
        received_after small (by omega)
      simp only [Request.withBody] at short
      omega
    · exact ⟨_, same, rfl, rfl, rfl, rfl, bodyText, rfl⟩

end Message

/-- A plain message that is written into a buffer is parsed into its parts. -/
theorem parse_serialise {message : Message} (plain : message.Plain)
    (size : buf.size = (serialise message).length) (small : buf.size < 2 ^ 31)
    (holds : buf.data.Holds 0 (serialise message)) :
    ∃ q, parseRequest zeroed buf = (.ok, q) ∧ q.method = message.method ∧
      q.version = message.version ∧
      text buf.data q.uri = message.uri ∧ q.headers.map (·.texts buf.data) = message.headers ∧
      text buf.data q.body = message.body ∧ q.state = .readComplete := by
  have parts : serialise message = (requestLine message ++ [lf]) ++
      ((message.headers.flatMap headerLine ++ [cr, lf]) ++ message.body) := by simp [serialise]
  rw [parts] at holds size
  obtain ⟨holdsLine, rest⟩ := holds.append
  obtain ⟨holdsHeaders, holdsBody⟩ := rest.append
  simp only [List.length_append, List.length_cons, List.length_nil,
    Nat.zero_add] at size holdsHeaders holdsBody
  obtain ⟨q, head, method, version, uri, texts, fromLines, empty, position⟩ :=
    parse_head plain small (by rw [bodyStart]; omega) holdsLine holdsHeaders
  have call := parseRequest_scanDone (.inl rfl) head
  have start : (requestLine message).length + 1 + ((message.headers.flatMap headerLine).length + 2) = q.readBytes := by
    rw [position, bodyStart]
    omega
  obtain ⟨r, done, sameMethod, sameVersion, sameUri, sameHeaders, body, state⟩ :=
    startBody_message plain small texts fromLines empty (by omega) (start ▸ holdsBody)
  exact ⟨r, call.trans done, sameMethod.trans method, sameVersion.trans version, sameUri ▸ uri,
    sameHeaders ▸ texts, body,
    state⟩

/-- A message with a header and a body. -/
def hello : Message :=
  ⟨.post, ascii "/", .http11, [(ascii "Host", []), (ascii "Content-Length", ascii "2")], ascii "hi"⟩

theorem parse_serialise_hello :
    ∃ q, parseRequest zeroed (.holding (serialise hello) []) = (.ok, q) ∧
      text (Buffer.holding (serialise hello) []).data q.body = ascii "hi" := by
  have sharp : ∀ name ∈ [ascii "Host", ascii "Content-Length", ascii "2", []], Sharp name := by
    intro name member c ends
    have all : ∀ name ∈ [ascii "Host", ascii "Content-Length", ascii "2", []], ∀ c ∈ name,
      isBlank c = false := by
      decide +kernel
    exact all name member c (ends.elim List.mem_of_head? List.mem_of_getLast?)
  have plain : hello.Plain := by
    refine ⟨by decide +kernel, by decide, fun header member => ?_, fun header member => ?_,
      by decide +kernel, ?_⟩
    · have texts : ∀ header ∈ hello.headers, 58 ∉ header.1 ∧ lf ∉ header.1 ∧
          header.1 ∈ [ascii "Host", ascii "Content-Length", ascii "2", []] := by decide +kernel
      exact ⟨(texts header member).1, (texts header member).2.1, sharp _ (texts header member).2.2⟩
    · have texts : ∀ header ∈ hello.headers, lf ∉ header.2 ∧
          header.2 ∈ [ascii "Host", ascii "Content-Length", ascii "2", []] := by decide +kernel
      exact ⟨(texts header member).1, sharp _ (texts header member).2⟩
    · have found : (hello.headers.find? fun header => header.1 = contentLength) =
          some (ascii "Content-Length", ascii "2") := by decide +kernel
      rw [found]
      exact ⟨⟨by decide +kernel, by decide +kernel⟩, by decide +kernel⟩
  have holds : (Buffer.holding (serialise hello) []).data.Holds 0 (serialise hello) := by
    intro k bound
    rw [Nat.zero_add, holding_byte bound]
  obtain ⟨q, call, -, -, -, -, body, -⟩ := parse_serialise plain rfl (by decide +kernel) holds
  exact ⟨q, call, body⟩

end Cask.Http
