import Mathlib.Data.List.Find
import Cask.Http.TwoRuns

/-! # Chunks

The bytes of a request arrive in pieces, and the parser is called on longer and longer
prefixes until it does not ask for more.  With zeros behind the received bytes nothing but
the number of the `Content-Length` header can depend on the pieces: the header block is
scanned in the same way in any number of calls, and the body only needs to be long enough.
-/

namespace Cask.Http

open Storage

/-- Nothing but zeros behind the received bytes. -/
def ZeroPast (buf : Buffer) : Prop := ∀ i, buf.size ≤ i → buf.data.byte i = 0

/-- Calls on the buffers in turn, until one does not return `REQ_UF`. -/
def feed : List Buffer → Request → ReqCode × Request
  | [], req => (.uf, req)
  | buf :: rest, req =>
    match parseRequest req buf with
    | (.uf, req) => feed rest req
    | (code, req) => (code, req)

/-- The return code and the part of the request that the handlers see. -/
def verdict (result : ReqCode × Request) :
    ReqCode × HttpMethod × HttpVersion × Str × List HttpHeader × Str :=
  (result.1, result.2.method, result.2.version, result.2.uri, result.2.headers, result.2.body)

/-- The first of the prefixes that completes the header block announces the same length as `buf`. -/
def SettledLength (req : Request) (bufs : List Buffer) (buf : Buffer) : Prop :=
  ∀ b q cl, bufs.find? (fun b => (headersDone req b).isSome) = some b → headersDone req b = some q →
    findHeader q contentLength b = some cl → announced b.data cl = announced buf.data cl

variable {buf buf' : Buffer} {req q r : Request} {n : Nat} {bufs : List Buffer}

/-! ## A call that waits -/

/-- A request that still waits for the end of its header block. -/
structure Waiting (n : Nat) (req : Request) : Prop where
  isOpen : req.Open
  sound : Sound n req
  position : req.readBytes ≤ n
  body : req.body = ⟨0, 0⟩

theorem Waiting.zeroed (n : Nat) : Waiting n zeroed := ⟨.inl rfl, .zeroed n, Nat.zero_le _, rfl⟩

theorem Waiting.mono {m : Nat} (waiting : Waiting n req) (more : n ≤ m) : Waiting m req :=
  ⟨waiting.isOpen, waiting.sound.mono more, Nat.le_trans waiting.position more, waiting.body⟩

/-- A scan that stops is not at a blank line. -/
theorem scan_stop {left : Nat} {code : ReqCode} (stop : code = .uf ∨ code = .trap)
    (scanned : scan buf left req = (code, q)) : ¬ Blank buf q.readBytes := by
  have notOk : code ≠ .ok ∧ code ≠ .err := by rcases stop with rfl | rfl <;> decide
  induction left generalizing req with
  | zero =>
    cases scanned
    exact absurd rfl notOk.1
  | succ left ih =>
    rcases line_cases buf req.readBytes with
      blank | ⟨notBlank, far⟩ | ⟨notBlank, near, line⟩ | ⟨lineLen, notBlank, near, line, bound⟩
    · rw [scan_blank blank] at scanned
      cases scanned
      exact absurd rfl notOk.1
    · rw [scan_far notBlank far] at scanned
      cases scanned
      exact notBlank
    · rw [scan_stuck notBlank near line] at scanned
      cases scanned
      exact notBlank
    · rw [scan_line notBlank near line] at scanned
      cases parsed : parseHeader buf.data req.readBytes lineLen with
      | none =>
        rw [parsed] at scanned
        cases scanned
        exact absurd rfl notOk.2
      | some header =>
        rw [parsed] at scanned
        exact ih scanned

/-- With zeros behind the received bytes, `parse_headers` is the scan. -/
theorem parseHeaders_zero (zero : ZeroPast buf) (sound : Sound buf.size req) :
    parseHeaders req buf = scan buf (maxHeaders - req.headers.length) req := by
  obtain ⟨code, q, scanned, -, -, -, -, done⟩ := parseHeaders_cases sound
  rw [scanned]
  rcases done with ⟨rfl, done⟩ | ⟨rfl, done⟩ | ⟨stop, done⟩
  · exact done
  · exact done
  · have notBlank : ¬ atBlankLine buf.data q.readBytes = true := by
      intro blank
      apply scan_stop stop scanned
      refine ⟨?_, blank⟩
      by_contra past
      have second := (atBlankLine_iff.mp blank).2
      rw [zero (q.readBytes + 1) (by omega)] at second
      exact absurd second (by decide)
    rw [done, if_neg notBlank]

/-- A request line that is complete is read in the same way when more bytes follow. -/
theorem enter_extends (req : Request) (ext : Extends buf buf') (small : buf'.size < 2 ^ 31) :
    enter req buf = (.uf, req) ∨ enter req buf = enter req buf' := by
  have smaller := Nat.lt_of_le_of_lt ext.size small
  by_cases state : req.state = .init
  · cases line : span buf.data lf buf.seen 0 with
    | none =>
      exact .inl (enter_none state line)
    | some lineLen =>
      have bound := (span_some.mp line).2.1
      have agree : AgreeBelow buf.seen buf.data buf'.data := ext.bytes.mono (seen_le buf)
      have more : buf.seen ≤ buf'.seen := by
        rw [seen_eq smaller, seen_eq small]
        exact ext.size
      right
      rw [enter, enter, parseStatusLine_some line, parseStatusLine_some (span_mono agree more line),
        parseTokens_congr (agree.mono (by omega))]
  · right
    cases which : req.state with
    | init => exact absurd which state
    | headers => rw [enter, enter, which]
    | body => rw [enter, enter, which]
    | readComplete => rw [enter, enter, which]

theorem enter_headers (buf : Buffer) (state : req.state = .headers) : enter req buf = (.ok, req) :=
  by rw [enter, state]

theorem parseRequest_entered (isOpen : req.Open) (entered : enter req buf = (.ok, q)) :
    parseRequest req buf = parseRest q buf := by rw [parseRequest_open isOpen, entered]

theorem headersDone_entered (entered : enter req buf = (.ok, q)) (state : q.state = .headers) :
    headersDone req buf = headersDone q buf := by
  rw [headersDone, headersDone, blockDone, blockDone, entered, enter_headers buf state]

/-- What becomes of a waiting request when bytes arrive, and of the same request when more bytes
arrive at once: the call can be resumed, or both end in the same way. -/
theorem Waiting.parse (waiting : Waiting buf.size req) (ext : Extends buf buf')
    (small : buf'.size < 2 ^ 31) (zero : ZeroPast buf) (zero' : ZeroPast buf') :
    (∃ r, parseRequest req buf = (.uf, r) ∧ headersDone req buf = none ∧ Waiting buf.size r ∧
      parseRequest r buf' = parseRequest req buf' ∧ headersDone r buf' = headersDone req buf') ∨
    (∃ r, parseRequest req buf = (.err, r) ∧ headersDone req buf = none ∧
      parseRequest req buf' = (.err, r) ∧
      headersDone req buf' = none) ∨
    ∃ q, headersDone req buf = some q ∧ headersDone req buf' = some q ∧
      parseRequest req buf = startBody q buf ∧
      parseRequest req buf' = startBody q buf' ∧ Sound buf.size q ∧ q.readBytes ≤ buf.size ∧
      q.body = ⟨0, 0⟩ := by
  have size := ext.size
  have isOpen := waiting.isOpen
  have stays : enter req buf = (.uf, req) → ∃ r, parseRequest req buf = (.uf, r) ∧
    headersDone req buf = none ∧
      Waiting buf.size r ∧ parseRequest r buf' = parseRequest req buf' ∧
      headersDone r buf' = headersDone req buf' := by
    intro entered
    refine ⟨req, ?_, headersDone_not_entered (by decide) entered, waiting, rfl, rfl⟩
    rw [parseRequest_open isOpen, entered]
  rcases enter_extends req ext small with noLine | same
  · exact .inl (stays noLine)
  rcases enter_cases isOpen waiting.sound with
    ⟨code, which, entered⟩ | ⟨q, entered, state, sound, body, bound⟩
  · rcases which with rfl | rfl
    · exact .inl (stays entered)
    · have entered' : enter req buf' = (.err, req) := same ▸ entered
      refine .inr (.inl ⟨req, ?_, headersDone_not_entered (by decide) entered, ?_,
        headersDone_not_entered (by decide) entered'⟩)
      · rw [parseRequest_open isOpen, entered]
      · rw [parseRequest_open isOpen, entered']
  · have entered' : enter req buf' = (.ok, q) := same ▸ entered
    have position : q.readBytes ≤ buf.size := by
      have := waiting.position
      have := seen_le buf
      omega
    have scan_eq := parseHeaders_zero zero sound
    have scan_eq' := parseHeaders_zero zero' (sound.mono size)
    obtain ⟨code, x, scanned, soundx, statex, bodyx, positionx, -⟩ := parseHeaders_cases sound
    rw [parseRequest_entered isOpen entered, parseRequest_entered isOpen entered',
      headersDone_entered entered state,
      headersDone_entered entered' state]
    rw [state] at statex
    rw [body, waiting.body] at bodyx
    have inside : x.readBytes ≤ buf.size := by omega
    have enterq := enter_headers buf state
    have enterq' := enter_headers buf' state
    rcases scan_extends (maxHeaders - q.headers.length) q ext small (by omega) with
      ⟨y, first, second⟩ | ⟨y, first, second⟩ | ⟨y, rest, first, fewer, count, second⟩
    all_goals
      rw [scanned] at first
      cases first
      rw [scanned] at scan_eq
    · rw [second] at scan_eq'
      exact .inr (.inr ⟨x, headersDone_ok enterq state scan_eq, headersDone_ok enterq' state scan_eq',
        parseRest_ok scan_eq, parseRest_ok scan_eq', soundx, inside, bodyx⟩)
    · have notOk : ReqCode.err ≠ .ok := by decide
      rw [second] at scan_eq'
      exact .inr (.inl ⟨x, parseRest_not_ok notOk scan_eq, headersDone_not_ok enterq state notOk scan_eq,
        parseRest_not_ok notOk scan_eq', headersDone_not_ok enterq' state notOk scan_eq'⟩)
    · -- the rest of the scan starts where this call stopped
      have notOk : ReqCode.uf ≠ .ok := by decide
      have resumed : parseHeaders x buf' = parseHeaders q buf' := by
        rw [parseHeaders_zero zero' (soundx.mono size), scan_eq', second]
        congr 1
        omega
      refine .inl ⟨x, parseRest_not_ok notOk scan_eq, headersDone_not_ok enterq state notOk scan_eq,
        ⟨.inr statex, soundx, inside, bodyx⟩, ?_, ?_⟩
      · rw [parseRequest_entered (.inr statex) (enter_headers buf' statex), parseRest,
          parseRest, resumed]
      · rw [headersDone, headersDone, blockDone, blockDone, enter_headers buf' statex, enterq']
        dsimp only
        rw [if_pos statex, if_pos state, resumed]

/-! ## The body -/

theorem feed_cons (b : Buffer) (rest : List Buffer) (req : Request) :
    feed (b :: rest) req =
    if (parseRequest req b).1 = .uf then feed rest
      (parseRequest req b).2 else parseRequest req b := by
  rw [feed]
  generalize parseRequest req b = result
  obtain ⟨code, q⟩ := result
  cases code <;> rfl

theorem feed_uf {b : Buffer} {rest : List Buffer} (same : parseRequest req b = (.uf, r)) :
    feed (b :: rest) req = feed rest r := by rw [feed, same]

theorem feed_stop {b : Buffer} {rest : List Buffer} {code : ReqCode} (stop : code ≠ .uf)
    (same : parseRequest req b = (code, r)) : feed (b :: rest) req = (code, r) := by
  rw [feed_cons, same, if_neg stop]

theorem feed_single (req : Request) (buf : Buffer) : feed [buf] req = parseRequest req buf := by
  rw [feed_cons]
  split
  · next waits => exact Prod.ext waits.symm rfl
  · rfl

/-- Where the body starts, in front of the end of the received bytes. -/
theorem received_after {pos : Nat} (small : buf.size < 2 ^ 31) (inside : pos ≤ buf.size) :
    asInt (asInt buf.size - asInt pos) = buf.size - pos := by
  rw [asInt_nat small, asInt_nat (by omega), asInt_of_range (by omega) (by omega)]

theorem parseBody_position (pos : Nat) (nonzero : req.body.len ≠ 0) :
    parseBody { req with readBytes := pos } buf = parseBody req buf := by
  simp only [parseBody, nonzero, if_false]

/-- Waiting for the body in several calls or in one. -/
theorem feed_body {pos : Nat} (state : req.state = .body) (start : req.body.off = asInt pos)
    (sizes : ∀ b ∈ bufs, pos ≤ b.size ∧ b.size ≤ buf.size) (inside : pos ≤ buf.size)
    (small : buf.size < 2 ^ 31) :
    verdict (feed (bufs ++ [buf]) req) = verdict (parseBody req buf) := by
  induction bufs generalizing req with
  | nil => rw [List.nil_append, feed_single, parseRequest_body state]
  | cons b bufs ih =>
    obtain ⟨insideb, more⟩ := sizes b (by simp)
    have later : ∀ b' ∈ bufs, pos ≤ b'.size ∧ b'.size ≤ buf.size := fun b' member =>
      sizes b' (List.mem_cons_of_mem _ member)
    have call : parseRequest req b = parseBody req b := parseRequest_body state
    have firstReceived := received_after (by omega) insideb
    have received := received_after small inside
    rw [← start] at firstReceived received
    rw [List.cons_append]
    rcases parseBody_cases req b with ⟨zero, same⟩ | ⟨nonzero, short, same⟩
      | ⟨nonzero, enough, same⟩
    · rw [feed_stop (by decide) (call.trans same), parseBody, if_pos zero]
    · -- not enough yet: the next call starts over from the same body
      rw [feed_uf (call.trans same), ih (by exact state) (by exact start) later,
        parseBody_position _ nonzero]
    · rw [feed_stop (by decide) (call.trans same)]
      rcases parseBody_cases req buf with ⟨zero, -⟩ | ⟨-, short, -⟩ | ⟨-, -, same'⟩
      · exact absurd zero nonzero
      · omega
      · rw [same']
        rfl

/-! ## Chunked requests -/

theorem verdict_body {a b : ReqCode × Request} (same : verdict a = verdict b) :
    a.2.body = b.2.body := by
  simp only [verdict, Prod.mk.injEq] at same
  exact same.2.2.2.2.2

theorem verdict_code {a b : ReqCode × Request} (same : verdict a = verdict b) : a.1 = b.1 := by
  simp only [verdict, Prod.mk.injEq] at same
  exact same.1

/-- The prefix `b` completes the header block: what the later calls do compared with one call on
all bytes. -/
theorem feed_startBody {b : Buffer} (sound : Sound b.size q) (position : q.readBytes ≤ b.size)
    (body : q.body = ⟨0, 0⟩) (call : parseRequest req b = startBody q b) (ext : Extends b buf)
    (sizes : ∀ b' ∈ bufs, b.size ≤ b'.size ∧ b'.size ≤ buf.size) (small : buf.size < 2 ^ 31) :
    verdict (feed (b :: bufs ++ [buf]) req) = verdict (startBody q buf) ↔
      ∀ cl, findHeader q contentLength b = some cl →
      announced b.data cl = announced buf.data cl := by
  have size := ext.size
  have sameFind : findHeader q contentLength b = findHeader q contentLength buf :=
    findHeader_congr sound ext.bytes
  -- the call that completes the header block is a call in the body phase
  have asBody : ∀ x : Request, x.state = .body → startBody q b = parseBody x b →
      feed (b :: bufs ++ [buf]) req = feed (b :: bufs ++ [buf]) x := by
    intro x state same
    rw [List.cons_append, feed_cons, feed_cons, call, same, parseRequest_body state]
  cases found : findHeader q contentLength b with
  | none =>
    have found' := sameFind ▸ found
    refine iff_of_true ?_ (by simp)
    rw [asBody { q with state := .body } rfl (startBody_none found), startBody_none found',
      List.cons_append]
    have empty : Request.body { q with state := .body } = ⟨0, 0⟩ := body
    rw [feed_stop (by decide) ((parseRequest_body rfl).trans (if_pos (by rw [empty]))), parseBody,
      if_pos (by rw [empty])]
  | some cl =>
    have found' := sameFind ▸ found
    simp only [Option.some.injEq, forall_eq']
    cases length : announced b.data cl with
    | none =>
      rw [List.cons_append, feed_stop (by decide) (call.trans (startBody_rejected found length))]
      cases length' : announced buf.data cl with
      | none =>
        rw [startBody_rejected found' length']
        simp
      | some len' =>
        rw [startBody_accepted found' length']
        refine iff_of_false (fun same => ?_) (by simp)
        exact parseBody_not_err (q.withBody len') buf (verdict_code same).symm
    | some len =>
      have fed : verdict (feed (b :: bufs ++ [buf]) req) = verdict (parseBody (q.withBody len) buf) := by
        rw [asBody (q.withBody len) rfl (startBody_accepted found length)]
        have start : (q.withBody len).body.off = asInt q.readBytes := rfl
        refine feed_body rfl start (fun b' member => ?_) (by omega) small
        rcases List.mem_cons.mp member with rfl | later
        · exact ⟨position, size⟩
        · obtain ⟨low, high⟩ := sizes b' later
          exact ⟨by omega, high⟩
      rw [fed]
      cases length' : announced buf.data cl with
      | none =>
        rw [startBody_rejected found' length']
        refine iff_of_false (fun same => ?_) (by simp)
        exact parseBody_not_err (q.withBody len) buf (verdict_code same)
      | some len' =>
        rw [startBody_accepted found' length', Option.some.injEq]
        constructor
        · intro same
          have bodies := verdict_body same
          rw [parseBody_body, parseBody_body] at bodies
          exact congrArg Str.len bodies
        · rintro rfl
          rfl

/-- A first prefix that does not complete the header block, when the later ones do so from `r` as
they do from `req`. -/
theorem settledLength_later {b : Buffer} (undone : headersDone req b = none)
    (same : ∀ b' ∈ bufs, headersDone r b' = headersDone req b') :
    SettledLength req (b :: bufs) buf ↔ SettledLength r bufs buf := by
  have first : (b :: bufs).find? (fun b => (headersDone req b).isSome) =
      bufs.find? (fun b => (headersDone r b).isSome) := by
    rw [List.find?_cons, undone]
    exact List.find?_congr fun b' member => by rw [same b' member]
  unfold SettledLength
  rw [first]
  constructor
  · intro settled b' q cl found done
    exact settled b' q cl found (same b' (List.mem_of_find?_eq_some found) ▸ done)
  · intro settled b' q cl found done
    exact settled b' q cl found (same b' (List.mem_of_find?_eq_some found) ▸ done)

theorem settledLength_first {b : Buffer} (done : headersDone req b = some q) :
    SettledLength req (b :: bufs) buf ↔
      ∀ cl, findHeader q contentLength b = some cl → announced b.data cl = announced buf.data cl := by
  have first : (b :: bufs).find? (fun b => (headersDone req b).isSome) = some b := by
    rw [List.find?_cons, done]
    rfl
  unfold SettledLength
  rw [first]
  constructor
  · intro settled cl found
    exact settled b q cl rfl done found
  · intro settled b' q' cl isFirst done' found
    cases isFirst
    rw [done] at done'
    cases done'
    exact settled cl found

/-- The calls from a waiting request on. -/
theorem Waiting.feed_iff (waiting : Waiting n req) (above : ∀ b ∈ bufs ++ [buf], n ≤ b.size)
    (prefixes : (bufs ++ [buf]).Pairwise Extends) (zero : ∀ b ∈ bufs ++ [buf], ZeroPast b)
    (small : buf.size < 2 ^ 31) :
    verdict (feed (bufs ++ [buf]) req) = verdict (parseRequest req buf) ↔
      SettledLength req bufs buf := by
  induction bufs generalizing req n with
  | nil =>
    rw [List.nil_append, feed_single]
    exact iff_of_true rfl fun b q cl first => by cases first
  | cons b bufs ih =>
    rw [List.cons_append, List.pairwise_cons] at prefixes
    obtain ⟨ext, prefixes⟩ := prefixes
    have zeroLater : ∀ b' ∈ bufs ++ [buf], ZeroPast b' :=
      fun b' member => zero b' (List.mem_cons_of_mem _ member)
    have zerob : ZeroPast b := zero b (by simp)
    have waiting := waiting.mono (above b (by simp))
    have extLast : Extends b buf := ext buf (by simp)
    have smaller : ∀ b' ∈ bufs ++ [buf], b'.size < 2 ^ 31 := by
      intro b' member
      rcases List.mem_append.mp member with earlier | last
      · have := ((List.pairwise_append.mp prefixes).2.2 b' earlier buf (by simp)).size
        omega
      · rw [List.mem_singleton.mp last]
        exact small
    have step :=
      fun b' member => waiting.parse (ext b' member) (smaller b' member) zerob (zeroLater b' member)
    rcases step buf (by simp) with ⟨r, call, undone, waits, resumed, -⟩
      | ⟨r, call, undone, ends, -⟩ |
        ⟨q, done, -, call, call', sound, position, body⟩
    · -- not enough bytes yet: the same calls follow from the request left behind
      have sameDone : ∀ b' ∈ bufs, headersDone r b' = headersDone req b' := by
        intro b' member
        rcases step b' (List.mem_append_left _ member) with
          ⟨r', call', -, -, -, same⟩ | ⟨r', call', -⟩ | ⟨q, done, -⟩
        · rw [call] at call'
          cases call'
          exact same
        · rw [call] at call'
          cases call'
        · rw [undone] at done
          cases done
      rw [List.cons_append, feed_uf call, settledLength_later undone sameDone, ← resumed]
      exact ih waits (fun b' member => (ext b' member).size) prefixes zeroLater
    · -- rejected, and so is every longer prefix
      have never : ∀ b' ∈ bufs, headersDone req b' = none := by
        intro b' member
        rcases step b' (List.mem_append_left _ member) with
          ⟨r', call', -⟩ | ⟨r', -, -, -, none⟩ | ⟨q, done, -⟩
        · rw [call] at call'
          cases call'
        · exact none
        · rw [undone] at done
          cases done
      rw [List.cons_append, feed_stop (by decide) call, ends]
      refine iff_of_true rfl fun b' q cl first done => ?_
      rcases List.mem_cons.mp (List.mem_of_find?_eq_some first) with rfl | later
      · rw [undone] at done
        cases done
      · rw [never b' later] at done
        cases done
    · rw [call', settledLength_first done]
      refine feed_startBody sound position body call extLast (fun b' member => ?_) small
      exact ⟨(ext b' (List.mem_append_left _ member)).size,
        ((List.pairwise_append.mp prefixes).2.2 b' member buf (by simp)).size⟩

/-- The verdict on a request that arrives in pieces is the verdict on all of its bytes at once
exactly when the first piece that completes the header block announces the same length. -/
theorem chunked_iff (prefixes : (bufs ++ [buf]).Pairwise Extends)
    (zero : ∀ b ∈ bufs ++ [buf], ZeroPast b) (small : buf.size < 2 ^ 31) :
    verdict (feed (bufs ++ [buf]) zeroed) = verdict (parseRequest zeroed buf) ↔
      SettledLength zeroed bufs buf :=
  (Waiting.zeroed 0).feed_iff (fun _ _ => Nat.zero_le _) prefixes zero small

theorem holding_zeroPast (bytes : List UInt8) : ZeroPast (.holding bytes []) := by
  intro i past
  simp only [Buffer.holding, List.append_nil] at past ⊢
  exact Image.write_byte_outside (.inr (by omega))

/-- A request that is cut inside a header line. -/
theorem chunked_iff_header_line :
    let first := Buffer.holding (ascii "GET / HTTP/1.1\r\nHo") []
    let whole := Buffer.holding (ascii "GET / HTTP/1.1\r\nHo" ++ ascii "st: a\r\n\r\n") []
    verdict (feed ([first] ++ [whole]) zeroed) = verdict (parseRequest zeroed whole) := by
  intro first whole
  have prefixes : ([first] ++ [whole]).Pairwise Extends :=
    List.pairwise_pair.mpr (holding_extends _ _ _ _)
  have zero : ∀ b ∈ [first] ++ [whole], ZeroPast b := by
    intro b member
    rcases List.mem_cons.mp member with rfl | later
    · exact holding_zeroPast _
    · rw [List.mem_singleton.mp later]
      exact holding_zeroPast _
  apply (chunked_iff prefixes zero (by decide +kernel)).mpr
  intro b q cl found done
  rw [List.mem_singleton.mp (List.mem_of_find?_eq_some found),
    show headersDone zeroed first = none by decide +kernel] at done
  cases done

/-- An empty `Content-Length` is followed by the blank line and the digit `1`. -/
def emptyLength : List UInt8 := ascii "GET / HTTP/1.1\r\nContent-Length:\r\n\r\n"

/-- Without the digit the request is complete and has no body; with it, `strtol` finds the digit
behind the blank line, and it is a body of one byte. -/
theorem not_chunked_empty_length :
    let first := Buffer.holding emptyLength []
    let whole := Buffer.holding (emptyLength ++ ascii "1") []
    Extends first whole ∧ ZeroPast first ∧ ZeroPast whole ∧ whole.size < 2 ^ 31 ∧
      verdict (feed [first, whole] zeroed) ≠ verdict (parseRequest zeroed whole) := by
  intro first whole
  have pieces : (feed [first, whole] zeroed).2.body = ⟨35, 0⟩ := by decide +kernel
  have once : (parseRequest zeroed whole).2.body = ⟨35, 1⟩ := by decide +kernel
  refine ⟨holding_extends _ _ _ _, holding_zeroPast _, holding_zeroPast _, by decide +kernel,
    fun same => ?_⟩
  have bodies := verdict_body same
  rw [pieces, once] at bodies
  exact absurd bodies (by decide)

end Cask.Http
