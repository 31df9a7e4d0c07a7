import Cask.Http.RoundTrip

/-! # A message that arrives in pieces

The parser is called on longer and longer fronts of a message, with any memory behind them.
As long as this memory does not pretend that the header block is over, every call but the last
one asks for more, and the last one reads the message.
-/

namespace Cask.Http

open Storage

variable {buf buf' : Buffer} {req q : Request} {n : Nat}

/-! ## Resuming a header block -/

/-- The memory where the received header lines run out is no blank line. -/
def Clean (req : Request) (buf : Buffer) : Prop :=
  ∀ pos, runsOutAt req buf = some pos → atBlankLine buf.data pos = false

theorem scanDone_congr (size : buf.size = buf'.size)
    (agree : AgreeBelow buf.size buf.data buf'.data) : scanDone req buf = scanDone req buf' := by
  unfold scanDone blockDone
  rw [enter_congr size agree]
  simp only [scan_congr size agree]

theorem scanDone_headers (state : req.state = .headers)
    (scanned : scan buf (maxHeaders - req.headers.length) req = (.ok, q)) :
    scanDone req buf = some q :=
  scanDone_some.mpr ⟨req, enter_headers buf state, state, scanned⟩

/-- A call on the front of a buffer whose header block is complete gets to the end of the header
block, or leaves the request where the rest of it can be read. -/
theorem Waiting.resume (waiting : Waiting buf.size req) (ext : Extends buf buf')
    (small : buf'.size < 2 ^ 31) (clean : Clean req buf) (done : scanDone req buf' = some q) :
    scanDone req buf = some q ∨
      ∃ r, parseRequest req buf = (.uf, r) ∧ Waiting buf.size r ∧ scanDone r buf' = some q := by
  have isOpen := waiting.isOpen
  obtain ⟨p, entered', state, scanned'⟩ := scanDone_some.mp done
  rcases enter_extends req ext small with noLine | same
  · refine .inr ⟨req, ?_, waiting, done⟩
    rw [parseRequest_open isOpen, noLine]
  have entered : enter req buf = (.ok, p) := same.trans entered'
  obtain ⟨-, sound, body, bound⟩ := enter_ok isOpen waiting.sound entered
  have position : p.readBytes ≤ buf.size := by
    have := waiting.position
    have := seen_le buf
    omega
  have size := ext.size
  obtain ⟨code, x, scanned, soundx, statex, bodyx, positionx, parsed⟩ := parseHeaders_cases sound
  rcases scan_extends (maxHeaders - p.headers.length) p ext small (by omega) with
    ⟨y, first, second⟩ | ⟨y, first, second⟩ | ⟨y, rest, first, fewer, count, second⟩
  · rw [scanned'] at second
    cases second
    exact .inl (scanDone_some.mpr ⟨p, entered, state, first⟩)
  · rw [scanned'] at second
    cases second
  · -- the call stops at `y`, and the scan of all bytes goes on from there
    rw [scanned] at first
    cases first
    have notBlank : ¬ atBlankLine buf.data x.readBytes = true := by
      rw [clean x.readBytes (runsOutAt_stop entered state (.inl rfl) scanned)]
      exact Bool.false_ne_true
    have stops : parseHeaders p buf = (.uf, x) := by
      rcases parsed with ⟨impossible, -⟩ | ⟨impossible, -⟩ | ⟨-, parsed⟩
      · cases impossible
      · cases impossible
      · rw [parsed, if_neg notBlank]
    refine .inr ⟨x, ?_, ⟨.inr (statex.trans state), soundx, by omega, ?_⟩, ?_⟩
    · rw [parseRequest_entered isOpen entered, parseRest_not_ok (by decide) stops]
    · rw [bodyx, body, waiting.body]
    · apply scanDone_headers (statex.trans state)
      rw [← scanned', second]
      congr 1
      omega

/-- A header block that is complete stays so when more bytes follow. -/
theorem Waiting.scanDone_extends (waiting : Waiting buf.size req) (ext : Extends buf buf')
    (small : buf'.size < 2 ^ 31) (done : scanDone req buf = some q) :
    scanDone req buf' = some q ∧ q.readBytes ≤ buf.size := by
  obtain ⟨p, entered, state, scanned⟩ := scanDone_some.mp done
  have entered' : enter req buf' = (.ok, p) := by
    rcases enter_extends req ext small with noLine | same
    · rw [entered] at noLine
      cases noLine
    · exact same.symm.trans entered
  have position : p.readBytes ≤ buf.size := by
    obtain ⟨-, -, -, bound⟩ := enter_ok waiting.isOpen waiting.sound entered
    have := waiting.position
    have := seen_le buf
    omega
  have size := ext.size
  rcases scan_extends (maxHeaders - p.headers.length) p ext small (by omega) with
    ⟨y, first, second⟩ | ⟨y, first, -⟩ | ⟨y, rest, first, -⟩
  · -- the scan that was done has not looked behind the buffer
    rw [scanned] at first
    cases first
    refine ⟨scanDone_some.mpr ⟨p, entered', state, second⟩, ?_⟩
    obtain ⟨headers, pos, -, high, moved⟩ := scan_moved buf (maxHeaders - p.headers.length) p
    rw [scanned] at moved
    obtain rfl : q = _ := moved
    dsimp only
    omega
  · rw [scanned] at first
    cases first
  · rw [scanned] at first
    cases first

/-! ## Messages -/

/-- The buffer that holds a whole message and nothing else. -/
def whole (message : Message) : Buffer := .holding (serialise message) []

theorem whole_size (message : Message) : (whole message).size = (serialise message).length := rfl

theorem whole_holds (message : Message) : (whole message).data.Holds 0 (serialise message) := by
  intro k bound
  rw [Nat.zero_add]
  exact holding_byte bound

theorem serialise_length (message : Message) :
    (serialise message).length = bodyStart message + message.body.length := by
  simp only [serialise, bodyStart, List.length_append, List.length_cons, List.length_nil]

/-- The parsed request says what the message says. -/
structure Reads (message : Message) (buf : Buffer) (req : Request) : Prop where
  method : req.method = message.method
  version : req.version = message.version
  uri : text buf.data req.uri = message.uri
  headers : req.headers.map (·.texts buf.data) = message.headers
  body : text buf.data req.body = message.body

/-- A parser on its way through a message, of which `n` bytes were there at the last call; `q` is
the request at the end of the header block. -/
inductive Progress (message : Message) (q : Request) (n : Nat) : Request → Prop where
  | head {req : Request} (waiting : Waiting n req) (done : scanDone req (whole message) = some q) : Progress message q n req
  | body (pos : Nat) (nonempty : message.body ≠ []) (inside : bodyStart message ≤ n) :
      Progress message q n { q.withBody message.body.length with readBytes := pos }

section Message

variable {message : Message} (plain : message.Plain) (small : (serialise message).length < 2 ^ 31)

include plain small

/-- The header block of a front of the message that holds all of it. -/
theorem head_of_front (ext : Extends buf (whole message)) (inside : bodyStart message ≤ buf.size) :
    ∃ q, scanDone zeroed buf = some q ∧ q.method = message.method ∧ q.version = message.version ∧
      text buf.data q.uri = message.uri ∧ q.headers.map (·.texts buf.data) = message.headers ∧
      (∀ header ∈ q.headers, FromLine buf header) ∧ q.body = ⟨0, 0⟩ ∧
      q.readBytes = bodyStart message := by
  have size := ext.size
  rw [whole_size] at size
  have parts : serialise message = ((requestLine message ++ [lf]) ++ (message.headers.flatMap headerLine ++ [cr, lf])) ++
      message.body := by simp [serialise]
  have holds := whole_holds message
  rw [parts] at holds
  obtain ⟨holdsHead, -⟩ := holds.append
  have length : ((requestLine message ++ [lf]) ++ (message.headers.flatMap headerLine ++ [cr, lf])).length =
      bodyStart message := by
    simp only [bodyStart, List.length_append, List.length_cons, List.length_nil]
    omega
  have holdsHere : buf.data.Holds 0 ((requestLine message ++ [lf]) ++ (message.headers.flatMap headerLine ++ [cr, lf])) := by
    apply holdsHead.congr
    intro i _ upper
    rw [length] at upper
    exact ext.bytes i (by omega)
  obtain ⟨holdsLine, holdsHeaders⟩ := holdsHere.append
  rw [List.length_append, List.length_singleton, Nat.zero_add] at holdsHeaders
  exact parse_head plain (by omega) inside holdsLine holdsHeaders

/-- The request with which the header block of the message ends. -/
theorem exists_head :
    ∃ q, scanDone zeroed (whole message) = some q ∧ q.readBytes = bodyStart message := by
  have inside : bodyStart message ≤ (whole message).size := by
    rw [whole_size, serialise_length]
    exact Nat.le_add_right ..
  obtain ⟨q, done, -, -, -, -, -, -, position⟩ := head_of_front plain small (.refl _) inside
  exact ⟨q, done, position⟩

/-- A front that holds the header block ends it with the same request as the whole message. -/
theorem head_facts (start : scanDone zeroed (whole message) = some q)
    (ext : Extends buf (whole message)) (inside : bodyStart message ≤ buf.size) :
    q.method = message.method ∧ q.version = message.version ∧ text buf.data q.uri = message.uri ∧
      q.headers.map (·.texts buf.data) = message.headers ∧
      (∀ header ∈ q.headers, FromLine buf header) ∧
      q.body = ⟨0, 0⟩ ∧ q.readBytes = bodyStart message := by
  obtain ⟨q', done, facts⟩ := head_of_front plain small ext inside
  obtain ⟨done', -⟩ := (Waiting.zeroed buf.size).scanDone_extends ext small done
  rw [start] at done'
  cases done'
  exact facts

omit plain small in
theorem holds_body (ext : Extends buf (whole message))
    (full : buf.size = (serialise message).length) :
    buf.data.Holds (bodyStart message) message.body := by
  have parts : serialise message = (requestLine message ++ [lf] ++ message.headers.flatMap headerLine ++ [cr, lf]) ++
      message.body := rfl
  have holds := whole_holds message
  rw [parts] at holds
  have length : (requestLine message ++ [lf] ++ message.headers.flatMap headerLine ++ [cr, lf]).length =
      bodyStart message := by
    simp only [bodyStart, List.length_append, List.length_cons, List.length_nil]
  have rest := holds.append.2
  rw [length, Nat.zero_add] at rest
  apply rest.congr
  intro i _ upper
  rw [← serialise_length, ← full] at upper
  exact ext.bytes i upper

omit plain in
/-- Where a call in the body of the message stands. -/
theorem parseBody_front (position : q.readBytes = bodyStart message)
    (inside : bodyStart message ≤ buf.size) (ext : Extends buf (whole message))
    (nonempty : message.body ≠ []) (pos : Nat) :
    parseBody { q.withBody message.body.length with readBytes := pos } buf =
      if buf.size < (serialise message).length then
      (.uf, { q.withBody message.body.length with readBytes := buf.size })
      else (.ok, { q.withBody message.body.length with readBytes := buf.size, state := .readComplete }) := by
  have size := ext.size
  rw [whole_size] at size
  have positive := List.length_pos_iff.mpr nonempty
  have total := serialise_length message
  have received : asInt (asInt buf.size - asInt q.readBytes) = buf.size - q.readBytes :=
    received_after (by omega) (by omega)
  have start : (q.withBody message.body.length).body.off = asInt q.readBytes := rfl
  have announced : (q.withBody message.body.length).body.len = message.body.length := rfl
  rcases parseBody_cases { q.withBody message.body.length with readBytes := pos } buf with
    ⟨zero, -⟩ | ⟨-, short, same⟩ | ⟨-, enough, same⟩
  · rw [announced] at zero
    omega
  · rw [start, announced, received] at short
    rw [same, if_pos (by omega)]
  · rw [start, announced, received] at enough
    rw [same, if_neg (by omega)]

/-- A call on a proper front of the message asks for more. -/
theorem Progress.more (start : scanDone zeroed (whole message) = some q)
    (progress : Progress message q n req) (ext : Extends buf (whole message)) (later : n ≤ buf.size)
    (short : buf.size < (serialise message).length) (clean : Clean req buf) :
    ∃ r, parseRequest req buf = (.uf, r) ∧ Progress message q buf.size r := by
  obtain ⟨q', start', position⟩ := exists_head plain small
  rw [start] at start'
  cases start'
  have total := serialise_length message
  cases progress with
  | head waiting done =>
    have waiting := waiting.mono later
    rcases waiting.resume ext small clean done with doneHere | ⟨r, call, waits, resumed⟩
    · -- the header block is complete: some of the body is missing
      have inside : bodyStart message ≤ buf.size :=
        position ▸ (waiting.scanDone_extends ext small doneHere).2
      obtain ⟨-, -, -, texts, fromLines, empty, -⟩ := head_facts plain small start ext inside
      have nonempty : message.body ≠ [] := by
        intro none
        rw [none, List.length_nil] at total
        omega
      rw [parseRequest_scanDone waiting.isOpen doneHere]
      rcases startBody_announced plain texts fromLines empty with ⟨none, -⟩ | announced
      · exact absurd none nonempty
      · have front := parseBody_front small position inside ext nonempty q.readBytes
        rw [if_pos short] at front
        exact ⟨_, announced.trans front, .body _ nonempty inside⟩
    · exact ⟨r, call, .head waits resumed⟩
  | body pos nonempty inside =>
    have inside := Nat.le_trans inside later
    have front := parseBody_front small position inside ext nonempty pos
    rw [if_pos short] at front
    exact ⟨_, (parseRequest_body rfl).trans front, .body _ nonempty inside⟩

/-- A call on all of the message reads it. -/
theorem Progress.finish (start : scanDone zeroed (whole message) = some q)
    (progress : Progress message q n req) (ext : Extends buf (whole message))
    (full : buf.size = (serialise message).length) :
    ∃ r, parseRequest req buf = (.ok, r) ∧ Reads message buf r := by
  have total := serialise_length message
  have inside : bodyStart message ≤ buf.size := by omega
  obtain ⟨method, version, uri, texts, fromLines, empty, position⟩ :=
    head_facts plain small start ext inside
  have holdsBody := holds_body ext full
  cases progress with
  | head waiting done =>
    -- the head is still to be parsed
    have doneHere : scanDone req buf = some q := by
      rw [scanDone_congr full ext.bytes]
      exact done
    rw [parseRequest_scanDone waiting.isOpen doneHere]
    rw [← position] at holdsBody
    obtain ⟨r, call, sameMethod, sameVersion, sameUri, sameHeaders, body, -⟩ :=
      startBody_message plain (by omega) texts fromLines empty (by omega) holdsBody
    exact ⟨r, call, sameMethod.trans method, sameVersion.trans version, sameUri ▸ uri,
      sameHeaders ▸ texts, body⟩
  | body pos nonempty =>
    -- only the body was missing
    have front := parseBody_front small position inside ext nonempty pos
    rw [if_neg (by omega)] at front
    refine ⟨_, (parseRequest_body rfl).trans front, method, version, uri, texts, ?_⟩
    exact text_holds holdsBody (by rw [← position]; exact asInt_nat (by omega)) rfl

end Message

end Cask.Http
