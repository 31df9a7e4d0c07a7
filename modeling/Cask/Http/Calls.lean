import Cask.Http.Scan

/-! # Calls of the parser

One call of `parse_request` cut at its seams: the request line, the header block and the
body.  `Sound` is what every sequence of calls on growing content keeps, whatever the memory
past the received bytes holds.
-/

namespace Cask.Http

open Storage

/-! ## The seams of a call -/

/-- The part of `parse_request` in front of `parse_headers`. -/
def enter (req : Request) (buf : Buffer) : ReqCode × Request :=
  match req.state with
  | .init =>
    match parseStatusLine req buf with
    | (.ok, q) => (.ok, { q with state := .headers })
    | (code, q) => (code, q)
  | _ => (.ok, req)

/-- The header block is not complete yet. -/
def Request.Open (req : Request) : Prop := req.state = .init ∨ req.state = .headers

/-- The request with which a call leaves its header block, if `scanner` completes the block. -/
def blockDone (scanner : Request → Buffer → ReqCode × Request) (req : Request) (buf : Buffer) : Option Request :=
  match enter req buf with
  | (.ok, q) =>
    if q.state = .headers then
      match scanner q buf with
      | (.ok, q) => some q
      | _ => none
    else none
  | _ => none

/-- The request with which a call leaves `parse_headers`, if it completes the header block. -/
def headersDone (req : Request) (buf : Buffer) : Option Request := blockDone parseHeaders req buf

/-- The request with which a call leaves `parse_headers`, if the received bytes alone complete the
header block. -/
def scanDone (req : Request) (buf : Buffer) : Option Request :=
  blockDone (fun q buf => scan buf (maxHeaders - q.headers.length) q) req buf

/-- The read position at which a call runs out of received bytes inside the header block. -/
def runsOutAt (req : Request) (buf : Buffer) : Option Nat :=
  match enter req buf with
  | (.ok, q) =>
    if q.state = .headers then
      match scan buf (maxHeaders - q.headers.length) q with
      | (.uf, q) => some q.readBytes
      | (.trap, q) => some q.readBytes
      | _ => none
    else none
  | _ => none

/-- The body length that a header announces, if the parser accepts it. -/
def announced (data : Image) (cl : HttpHeader) : Option Int :=
  if numberAt data cl.val.off > maxBody then none else some (numberAt data cl.val.off)

variable {buf buf' : Buffer} {req q : Request} {n : Nat}

theorem blockDone_some {scanner : Request → Buffer → ReqCode × Request} :
    blockDone scanner req buf = some q ↔ ∃ p, enter req buf = (.ok, p) ∧ p.state = .headers ∧
    scanner p buf = (.ok, q) := by
  constructor
  · intro done
    unfold blockDone at done
    split at done
    · next p entered =>
      split at done
      · next state =>
        split at done
        · next scanned =>
          cases done
          exact ⟨p, entered, state, scanned⟩
        · cases done
      · cases done
    · cases done
  · rintro ⟨p, entered, state, scanned⟩
    rw [blockDone, entered]
    dsimp only
    rw [if_pos state, scanned]

theorem scanDone_some :
    scanDone req buf = some q ↔ ∃ p, enter req buf = (.ok, p) ∧ p.state = .headers ∧
    scan buf (maxHeaders - p.headers.length) p = (.ok, q) :=
  blockDone_some

theorem parseRequest_open (isOpen : req.Open) : parseRequest req buf =
    match enter req buf with
    | (.ok, q) => parseRest q buf
    | (code, q) => (code, q) := by
  rcases isOpen with state | state
  · rw [parseRequest, enter, state]
    dsimp only
    generalize parseStatusLine req buf = line
    obtain ⟨code, q⟩ := line
    cases code <;> rfl
  · rw [parseRequest, enter, state]

theorem parseRequest_body (state : req.state = .body) :
    parseRequest req buf = parseBody req buf := by
  rw [parseRequest, state]

theorem parseRequest_complete (state : req.state = .readComplete) :
    parseRequest req buf = (.ok, req) := by
  rw [parseRequest, state]

theorem enter_closed (closed : ¬ req.Open) : enter req buf = (.ok, req) := by
  cases state : req.state with
  | init => exact absurd (.inl state) closed
  | headers => exact absurd (.inr state) closed
  | body => rw [enter, state]
  | readComplete => rw [enter, state]

theorem headersDone_closed (closed : ¬ req.Open) : headersDone req buf = none := by
  rw [headersDone, blockDone, enter_closed closed]
  exact if_neg fun state => closed (.inr state)

theorem headersDone_not_entered {code : ReqCode} (notOk : code ≠ .ok) (entered : enter req buf = (code, q)) :
    headersDone req buf = none := by
  rw [headersDone, blockDone, entered]
  cases code with
  | ok => exact absurd rfl notOk
  | err => rfl
  | uf => rfl
  | trap => rfl

theorem runsOutAt_closed (closed : ¬ req.Open) : runsOutAt req buf = none := by
  rw [runsOutAt, enter_closed closed]
  exact if_neg fun state => closed (.inr state)

section Entered

variable {r : Request} {code : ReqCode} (entered : enter req buf = (.ok, q)) (state : q.state = .headers)

include entered state

theorem headersDone_ok (done : parseHeaders q buf = (.ok, r)) : headersDone req buf = some r :=
  blockDone_some.mpr ⟨q, entered, state, done⟩

theorem headersDone_not_ok (notOk : code ≠ .ok) (done : parseHeaders q buf = (code, r)) :
    headersDone req buf = none := by
  rw [headersDone, blockDone, entered]
  dsimp only
  rw [if_pos state, done]
  cases code with
  | ok => exact absurd rfl notOk
  | err => rfl
  | uf => rfl
  | trap => rfl

theorem runsOutAt_stop (stop : code = .uf ∨ code = .trap)
    (scanned : scan buf (maxHeaders - q.headers.length) q = (code, r)) :
    runsOutAt req buf = some r.readBytes := by
  rw [runsOutAt, entered]
  dsimp only
  rw [if_pos state, scanned]
  rcases stop with rfl | rfl <;> rfl

theorem runsOutAt_none (ended : code = .ok ∨ code = .err)
    (scanned : scan buf (maxHeaders - q.headers.length) q = (code, r)) :
    runsOutAt req buf = none := by
  rw [runsOutAt, entered]
  dsimp only
  rw [if_pos state, scanned]
  rcases ended with rfl | rfl <;> rfl

end Entered

/-! ## What calls keep -/

/-- Everything the request refers to lies below `n`. -/
structure Sound (n : Nat) (req : Request) : Prop where
  uri : req.uri.Within 0 n
  headers : ∀ header ∈ req.headers, header.Within n

theorem Sound.zeroed (n : Nat) : Sound n zeroed :=
  ⟨⟨Int.le_refl _, Int.le_refl _, Int.natCast_nonneg n⟩,
    fun _ member => (List.not_mem_nil member).elim⟩

theorem Sound.mono {m : Nat} (sound : Sound n req) (more : n ≤ m) : Sound m req :=
  ⟨sound.uri.mono (Int.le_refl _) (by omega),
    fun header member => (sound.headers header member).mono more⟩

theorem Sound.congr (sound : Sound n req) (uri : q.uri = req.uri)
    (headers : q.headers = req.headers) : Sound n q :=
  ⟨uri ▸ sound.uri, headers ▸ sound.headers⟩

theorem parseStatusLine_none (line : span buf.data lf buf.seen 0 = none) :
    parseStatusLine req buf = (.uf, req) := by
  rw [parseStatusLine, ← Buffer.seen, line]

theorem parseStatusLine_some {lineLen : Nat} (line : span buf.data lf buf.seen 0 = some lineLen) :
    parseStatusLine req buf = parseTokens req buf.data lineLen := by
  rw [parseStatusLine, ← Buffer.seen, line]

section RequestLine

variable {lineLen : Nat}

theorem enter_none (state : req.state = .init) (line : span buf.data lf buf.seen 0 = none) :
    enter req buf = (.uf, req) := by
  rw [enter, state]
  dsimp only
  rw [parseStatusLine_none line]

theorem enter_rejected (state : req.state = .init)
    (line : span buf.data lf buf.seen 0 = some lineLen)
    (rejected : parseTokens req buf.data lineLen = (.err, req)) : enter req buf = (.err, req) := by
  rw [enter, state]
  dsimp only
  rw [parseStatusLine_some line, rejected]

theorem enter_accepted (state : req.state = .init)
    (line : span buf.data lf buf.seen 0 = some lineLen)
    (accepted : parseTokens req buf.data lineLen = (.ok, q)) :
    enter req buf = (.ok, { q with state := .headers }) := by
  rw [enter, state]
  dsimp only
  rw [parseStatusLine_some line, accepted]

end RequestLine

/-- A request line is missing, rejected or accepted. -/
theorem enter_cases (isOpen : req.Open) (sound : Sound buf.size req) :
    (∃ code, (code = .uf ∨ code = .err) ∧ enter req buf = (code, req)) ∨
    ∃ q, enter req buf = (.ok, q) ∧ q.state = .headers ∧ Sound buf.size q ∧ q.body = req.body ∧
      q.readBytes ≤ max req.readBytes buf.seen := by
  rcases isOpen with state | state
  · cases line : span buf.data lf buf.seen 0 with
    | none => exact .inl ⟨.uf, .inl rfl, enter_none state line⟩
    | some lineLen =>
      have bound := (span_some.mp line).2.1
      have inside := seen_le buf
      rcases parseTokens_cases req buf.data lineLen with
        rejected | ⟨method, version, uri, within, -, accepted⟩
      · exact .inl ⟨.err, .inr rfl, enter_rejected state line rejected⟩
      · refine .inr ⟨_, enter_accepted state line accepted, rfl, ?_, rfl, by dsimp only; omega⟩
        exact ⟨within.mono (Int.le_refl _) (by omega), sound.headers⟩
  · refine .inr ⟨req, ?_, state, sound, rfl, Nat.le_max_left _ _⟩
    rw [enter, state]

/-- What is known of a request whose line was accepted. -/
theorem enter_ok (isOpen : req.Open) (sound : Sound buf.size req) (entered : enter req buf = (.ok, q)) :
    q.state = .headers ∧ Sound buf.size q ∧ q.body = req.body ∧
      q.readBytes ≤ max req.readBytes buf.seen := by
  obtain ⟨code, which, rejected⟩ | ⟨q', entered', accepted⟩ := enter_cases isOpen sound
  · rw [entered] at rejected
    cases rejected
    obtain impossible | impossible := which <;> cases impossible
  · rw [entered] at entered'
    cases entered'
    exact accepted

/-- An accepted request line ends where the header block starts. -/
theorem enter_line (state : req.state = .init) (entered : enter req buf = (.ok, q)) :
    span buf.data lf buf.seen 0 = some q.readBytes ∧ q.headers = req.headers := by
  cases line : span buf.data lf buf.seen 0 with
  | none =>
    rw [enter_none state line] at entered
    cases entered
  | some lineLen =>
    rcases parseTokens_cases req buf.data lineLen with
      rejected | ⟨method, version, uri, within, -, accepted⟩
    · rw [enter_rejected state line rejected] at entered
      cases entered
    · rw [enter_accepted state line accepted] at entered
      cases entered
      exact ⟨rfl, rfl⟩

theorem enter_congr (size : buf.size = buf'.size) (agree : AgreeBelow buf.size buf.data buf'.data) :
    enter req buf = enter req buf' := by
  have inside := seen_le buf
  have sameSpan : span buf'.data lf buf'.seen 0 = span buf.data lf buf.seen 0 := by
    rw [← seen_congr size, span_congr (agree.mono inside)]
  have sameLine : parseStatusLine req buf = parseStatusLine req buf' := by
    cases line : span buf.data lf buf.seen 0 with
    | none => rw [parseStatusLine_none line, parseStatusLine_none (sameSpan.trans line)]
    | some lineLen =>
      have bound := (span_some.mp line).2.1
      rw [parseStatusLine_some line, parseStatusLine_some (sameSpan.trans line)]
      exact parseTokens_congr (agree.mono (by omega))
  rw [enter, enter, sameLine]

/-- How a call goes through the header block: the scan decides, unless it runs out of bytes. -/
theorem parseHeaders_cases (sound : Sound buf.size req) :
    ∃ code q, scan buf (maxHeaders - req.headers.length) req = (code, q) ∧ Sound buf.size q ∧
      q.state = req.state ∧
      q.body = req.body ∧ q.readBytes ≤ max req.readBytes buf.size ∧
      ((code = .ok ∧ parseHeaders req buf = (.ok, q)) ∨
      (code = .err ∧ parseHeaders req buf = (.err, q)) ∨
        ((code = .uf ∨ code = .trap) ∧ parseHeaders req buf =
          if atBlankLine buf.data q.readBytes then
          (.ok, { q with readBytes := q.readBytes + 2 }) else (code, q))) := by
  have loop : parseHeaders req buf = _ := headersLoop_eq buf (maxHeaders - req.headers.length) req
  obtain ⟨headers, pos, within, high, same⟩ := scan_moved buf (maxHeaders - req.headers.length) req
  rw [loop]
  generalize scan buf (maxHeaders - req.headers.length) req = result at same
  obtain ⟨code, q⟩ := result
  obtain rfl : q = _ := same
  refine ⟨code, _, rfl, ⟨sound.uri, ?_⟩, rfl, rfl, high, ?_⟩
  · intro header member
    rcases List.mem_append.mp member with old | new
    · exact sound.headers header old
    · exact within header new
  · cases code with
    | ok => exact .inl ⟨rfl, rfl⟩
    | err => exact .inr (.inl ⟨rfl, rfl⟩)
    | uf => exact .inr (.inr ⟨.inl rfl, rfl⟩)
    | trap => exact .inr (.inr ⟨.inr rfl, rfl⟩)

/-! ## The body -/

/-- What `case REQUEST_STATE_BODY` does to a request: it waits, or it is complete. -/
theorem parseBody_cases (req : Request) (buf : Buffer) :
    (req.body.len = 0 ∧ parseBody req buf = (.ok, { req with state := .readComplete })) ∨
    (req.body.len ≠ 0 ∧ asInt (asInt buf.size - req.body.off) < req.body.len ∧
      parseBody req buf = (.uf, { req with readBytes := buf.size })) ∨
    (req.body.len ≠ 0 ∧ req.body.len ≤ asInt (asInt buf.size - req.body.off) ∧
      parseBody req buf = (.ok, { req with readBytes := buf.size, state := .readComplete })) := by
  unfold parseBody
  split
  · next empty => exact .inl ⟨empty, rfl⟩
  · next some =>
    dsimp only
    split
    · next short => exact .inr (.inl ⟨some, short, rfl⟩)
    · next enough => exact .inr (.inr ⟨some, by omega, rfl⟩)

/-- The request that enters the body phase with the announced length. -/
def Request.withBody (req : Request) (len : Int) : Request :=
  { req with body := ⟨asInt req.readBytes, len⟩, state := .body }

theorem startBody_none (absent : findHeader req contentLength buf = none) :
    startBody req buf = parseBody { req with state := .body } buf := by rw [startBody, absent]

section Announced

variable {cl : HttpHeader}

theorem startBody_rejected (found : findHeader req contentLength buf = some cl)
    (length : announced buf.data cl = none) : startBody req buf = (.err, req) := by
  unfold announced at length
  split at length
  · next large => rw [startBody, found]; exact if_pos large
  · cases length

theorem startBody_accepted {len : Int} (found : findHeader req contentLength buf = some cl)
    (length : announced buf.data cl = some len) :
    startBody req buf = parseBody (req.withBody len) buf := by
  unfold announced at length
  split at length
  · cases length
  · next small =>
    cases length
    rw [startBody, found]
    exact if_neg small

end Announced

theorem findHeader_congr {key : List UInt8} (sound : Sound n req)
    (agree : AgreeBelow n buf.data buf'.data) :
    findHeader req key buf = findHeader req key buf' := by
  have inside := sound.headers
  unfold findHeader
  generalize req.headers = headers at inside ⊢
  induction headers with
  | nil => rfl
  | cons header rest ih =>
    rw [List.find?_cons, List.find?_cons, isNamed_congr (inside header (by simp)).1 agree]
    rw [ih fun h member => inside h (List.mem_cons_of_mem _ member)]

theorem parseBody_congr (size : buf.size = buf'.size) : parseBody req buf = parseBody req buf' := by
  rw [parseBody, parseBody, size]

theorem parseBody_sound (sound : Sound n req) : Sound n (parseBody req buf).2 := by
  rcases parseBody_cases req buf with ⟨-, same⟩ | ⟨-, -, same⟩ | ⟨-, -, same⟩
  all_goals
    rw [same]
    exact sound.congr rfl rfl

theorem startBody_sound (sound : Sound n req) : Sound n (startBody req buf).2 := by
  cases found : findHeader req contentLength buf with
  | none =>
    rw [startBody_none found]
    exact parseBody_sound (sound.congr rfl rfl)
  | some cl =>
    cases length : announced buf.data cl with
    | none =>
      rw [startBody_rejected found length]
      exact sound
    | some len =>
      rw [startBody_accepted found length]
      exact parseBody_sound (sound.congr rfl rfl)

theorem parseRest_ok (done : parseHeaders req buf = (.ok, q)) :
    parseRest req buf = startBody q buf := by
  rw [parseRest, done]

theorem parseRest_not_ok {code : ReqCode} (notOk : code ≠ .ok)
    (done : parseHeaders req buf = (code, q)) : parseRest req buf = (code, q) := by
  rw [parseRest, done]
  cases code with
  | ok => exact absurd rfl notOk
  | err => rfl
  | uf => rfl
  | trap => rfl

/-- A call in an open state: the request line or the header block is not complete or not
accepted, or the header block is complete. -/
theorem parseRequest_open_cases (isOpen : req.Open) (sound : Sound buf.size req) :
    (headersDone req buf = none ∧ ∃ code q, code ≠ .ok ∧ parseRequest req buf = (code, q) ∧ q.Open ∧
      Sound buf.size q ∧ q.body = req.body) ∨
    ∃ q, headersDone req buf = some q ∧ parseRequest req buf = startBody q buf ∧
      q.state = .headers ∧
      Sound buf.size q ∧ q.body = req.body := by
  rw [parseRequest_open isOpen]
  rcases enter_cases isOpen sound with ⟨code, which, same⟩ | ⟨q, same, state, soundq, body, -⟩
  · left
    rw [headersDone, blockDone, same]
    rcases which with rfl | rfl
    · exact ⟨rfl, _, req, by decide, rfl, isOpen, sound, rfl⟩
    · exact ⟨rfl, _, req, by decide, rfl, isOpen, sound, rfl⟩
  · rw [same]
    dsimp only
    obtain ⟨code, r, -, soundr, state', body', -, done⟩ := parseHeaders_cases soundq
    rw [state] at state'
    rw [body] at body'
    rcases done with ⟨-, done⟩ | ⟨-, done⟩ | ⟨stop, done⟩
    · exact .inr ⟨r, headersDone_ok same state done, parseRest_ok done, state', soundr, body'⟩
    · have notOk : ReqCode.err ≠ .ok := by decide
      exact .inl ⟨headersDone_not_ok same state notOk done, .err, r, notOk,
        parseRest_not_ok notOk done, .inr state',
        soundr, body'⟩
    · -- the scan ran out of bytes: the two bytes there decide
      by_cases blank : atBlankLine buf.data r.readBytes = true
      · rw [if_pos blank] at done
        exact .inr ⟨_, headersDone_ok same state done, parseRest_ok done, state',
          soundr.congr rfl rfl, body'⟩
      · rw [if_neg blank] at done
        have notOk : code ≠ .ok := by rcases stop with rfl | rfl <;> decide
        exact .inl ⟨headersDone_not_ok same state notOk done, code, r, notOk,
          parseRest_not_ok notOk done, .inr state',
          soundr, body'⟩

theorem state_of_not_open (closed : ¬ req.Open) :
    req.state = .body ∨ req.state = .readComplete := by
  cases state : req.state with
  | init => exact absurd (.inl state) closed
  | headers => exact absurd (.inr state) closed
  | body => exact .inl rfl
  | readComplete => exact .inr rfl

/-- A call keeps every range inside the received bytes. -/
theorem Sound.parse (sound : Sound buf.size req) : Sound buf.size (parseRequest req buf).2 := by
  by_cases isOpen : req.Open
  · rcases parseRequest_open_cases isOpen sound with ⟨-, code, q, -, same, -, soundq, -⟩
      | ⟨q, -, same, -, soundq, -⟩
    · rw [same]
      exact soundq
    · rw [same]
      exact startBody_sound soundq
  · rcases state_of_not_open isOpen with state | state
    · rw [parseRequest_body state]
      exact parseBody_sound sound
    · rw [parseRequest_complete state]
      exact sound

/-! ## Sequences of calls -/

/-- The requests that calls on growing content lead to, from a zeroed one; `allowed` restricts
the calls.  The memory past the received bytes is arbitrary in each of them. -/
inductive Reached (allowed : Request → Buffer → Prop) : Buffer → Request → Prop where
  | start (buf : Buffer) : Reached allowed buf zeroed
  | call {buf buf' : Buffer} {req : Request} (earlier : Reached allowed buf req) (ext : Extends buf buf')
      (allow : allowed req buf') : Reached allowed buf' (parseRequest req buf').2

theorem Reached.sound {allowed : Request → Buffer → Prop} (reached : Reached allowed buf req) :
    Sound buf.size req := by
  induction reached with
  | start buf => exact .zeroed _
  | call _ ext _ ih => exact (ih.mono ext.size).parse

end Cask.Http
