import Cask.Http.Calls

/-! # Two runs on the same received bytes

Two calls on the same received bytes from the same request, with different memory behind
these bytes.  The parser reads that memory in two places: the look for the blank line at the
end of the received header lines, and the number of the `Content-Length` header, which
`strtol` may look for behind the header block.  The calls have the same outcome exactly when
these two reads do.
-/

namespace Cask.Http

open Storage

/-- Where a call runs out of received header lines, the two memories agree on whether a blank
line follows. -/
def SameLookahead (req : Request) (buf buf' : Buffer) : Prop :=
  ∀ pos, runsOutAt req buf = some pos → atBlankLine buf.data pos = atBlankLine buf'.data pos

/-- Where a call completes the header block, the two memories agree on the announced length. -/
def SameLength (req : Request) (buf buf' : Buffer) : Prop :=
  ∀ q cl, headersDone req buf = some q → findHeader q contentLength buf = some cl →
    announced buf.data cl = announced buf'.data cl

variable {buf buf' : Buffer} {req q : Request}

theorem parseBody_body (req : Request) (buf : Buffer) : (parseBody req buf).2.body = req.body := by
  rcases parseBody_cases req buf with ⟨-, same⟩ | ⟨-, -, same⟩ | ⟨-, -, same⟩ <;> rw [same]

theorem parseBody_not_err (req : Request) (buf : Buffer) : (parseBody req buf).1 ≠ .err := by
  rcases parseBody_cases req buf with ⟨-, same⟩ | ⟨-, -, same⟩ | ⟨-, -, same⟩ <;> simp [same]

theorem parseBody_state (buf : Buffer) (state : req.state = .body) :
    (parseBody req buf).2.state ≠ .headers := by
  rcases parseBody_cases req buf with ⟨-, same⟩ | ⟨-, -, same⟩ | ⟨-, -, same⟩ <;> simp [same, state]

/-- A call that completes the header block does not look like one that ran out of bytes. -/
theorem startBody_ne {code : ReqCode} (notErr : code ≠ .err) (state : q.state = .headers) :
    startBody req buf ≠ (code, q) := by
  intro same
  cases found : findHeader req contentLength buf with
  | none =>
    rw [startBody_none found] at same
    have waits : Request.state { req with state := .body } = .body := rfl
    exact parseBody_state buf waits (by rw [same]; exact state)
  | some cl =>
    cases length : announced buf.data cl with
    | none =>
      rw [startBody_rejected found length] at same
      exact notErr (congrArg Prod.fst same).symm
    | some len =>
      rw [startBody_accepted found length] at same
      have waits : (req.withBody len).state = .body := rfl
      exact parseBody_state buf waits (by rw [same]; exact state)

theorem startBody_same_iff (sound : Sound buf.size req) (size : buf.size = buf'.size)
    (agree : AgreeBelow buf.size buf.data buf'.data) :
    startBody req buf = startBody req buf' ↔
      ∀ cl, findHeader req contentLength buf = some cl →
      announced buf.data cl = announced buf'.data cl := by
  have sameFind : findHeader req contentLength buf = findHeader req contentLength buf' :=
    findHeader_congr sound agree
  cases found : findHeader req contentLength buf with
  | none =>
    rw [startBody_none found, startBody_none (sameFind ▸ found), parseBody_congr size]
    simp
  | some cl =>
    have found' := sameFind ▸ found
    simp only [Option.some.injEq, forall_eq']
    cases length : announced buf.data cl with
    | none =>
      rw [startBody_rejected found length]
      cases length' : announced buf'.data cl with
      | none => simp [startBody_rejected found' length']
      | some len' =>
        rw [startBody_accepted found' length']
        -- one buffer is refused and the other is not
        refine iff_of_false (fun same => ?_) (by simp)
        exact parseBody_not_err (req.withBody len') buf' (congrArg Prod.fst same).symm
    | some len =>
      rw [startBody_accepted found length]
      cases length' : announced buf'.data cl with
      | none =>
        rw [startBody_rejected found' length']
        refine iff_of_false (fun same => ?_) (by simp)
        exact parseBody_not_err (req.withBody len) buf (congrArg Prod.fst same)
      | some len' =>
        rw [startBody_accepted found' length', Option.some.injEq]
        constructor
        · intro same
          have bodies := parseBody_body (req.withBody len) buf
          rw [same, parseBody_body] at bodies
          exact (congrArg Str.len bodies).symm
        · rintro rfl
          exact parseBody_congr size

/-- The two reads behind the received bytes, for a call that enters the header block with `req`. -/
theorem parseRest_same_iff (sound : Sound buf.size req) (state : req.state = .headers)
    (size : buf.size = buf'.size) (agree : AgreeBelow buf.size buf.data buf'.data)
    (entered : enter q buf = (.ok, req)) :
    parseRest req buf = parseRest req buf' ↔ SameLookahead q buf buf' ∧ SameLength q buf buf' := by
  have sound' : Sound buf'.size req := size ▸ sound
  obtain ⟨code, r, scanned, soundr, stater, -, -, done⟩ := parseHeaders_cases sound
  obtain ⟨code', r', scanned', -, -, -, -, done'⟩ := parseHeaders_cases sound'
  have same : (code, r) = (code', r') := by rw [← scanned, ← scanned', scan_congr size agree]
  cases same
  rw [state] at stater
  have lengths : ∀ {x : Request}, parseHeaders req buf = (.ok, x) →
    parseHeaders req buf' = (.ok, x) → Sound buf.size x →
      (parseRest req buf = parseRest req buf' ↔ SameLength q buf buf') := by
    intro x done done' soundx
    rw [parseRest_ok done, parseRest_ok done', startBody_same_iff soundx size agree, SameLength,
      headersDone_ok entered state done]
    constructor
    · intro same y cl finished found
      cases finished
      exact same cl found
    · intro same cl found
      exact same x cl rfl found
  have unfinished : ∀ {other : ReqCode}, other ≠ .ok → parseHeaders req buf = (other, r) →
    SameLength q buf buf' := by
    intro other notOk done x cl finished
    rw [headersDone_not_ok entered state notOk done] at finished
    cases finished
  rcases done with ⟨rfl, done⟩ | ⟨rfl, done⟩ | ⟨stop, done⟩
  · have noLook : SameLookahead q buf buf' := by
      intro pos runsOut
      rw [runsOutAt_none entered state (.inl rfl) scanned] at runsOut
      cases runsOut
    rcases done' with ⟨-, done'⟩ | ⟨wrong, -⟩ | ⟨wrong, -⟩
    · rw [lengths done done' soundr]
      exact (and_iff_right noLook).symm
    · cases wrong
    · rcases wrong with wrong | wrong <;> cases wrong
  · have noLook : SameLookahead q buf buf' := by
      intro pos runsOut
      rw [runsOutAt_none entered state (.inr rfl) scanned] at runsOut
      cases runsOut
    rcases done' with ⟨wrong, -⟩ | ⟨-, done'⟩ | ⟨wrong, -⟩
    · cases wrong
    · have notOk : ReqCode.err ≠ .ok := by decide
      rw [parseRest_not_ok notOk done, parseRest_not_ok notOk done']
      exact iff_of_true rfl ⟨noLook, unfinished notOk done⟩
    · rcases wrong with wrong | wrong <;> cases wrong
  · have notOk : code ≠ .ok := by rcases stop with rfl | rfl <;> decide
    have notErr : code ≠ .err := by rcases stop with rfl | rfl <;> decide
    have look : SameLookahead q buf buf' ↔
        atBlankLine buf.data r.readBytes = atBlankLine buf'.data r.readBytes := by
      rw [SameLookahead, runsOutAt_stop entered state stop scanned]
      simp
    rcases done' with ⟨wrong, -⟩ | ⟨wrong, -⟩ | ⟨-, done'⟩
    · exact absurd wrong notOk
    · exact absurd wrong notErr
    · rw [look]
      by_cases blank : atBlankLine buf.data r.readBytes = true
      · rw [if_pos blank] at done
        by_cases blank' : atBlankLine buf'.data r.readBytes = true
        · rw [if_pos blank'] at done'
          rw [lengths done done' (soundr.congr rfl rfl), blank, blank']
          simp
        · -- one call takes the memory for a blank line, the other one waits
          rw [if_neg blank'] at done'
          rw [parseRest_ok done, parseRest_not_ok notOk done']
          exact iff_of_false (startBody_ne notErr stater) fun same => blank' (same.1 ▸ blank)
      · rw [if_neg blank] at done
        by_cases blank' : atBlankLine buf'.data r.readBytes = true
        · rw [if_pos blank'] at done'
          rw [parseRest_ok done', parseRest_not_ok notOk done]
          exact iff_of_false (startBody_ne notErr stater).symm fun same => blank (same.1 ▸ blank')
        · rw [if_neg blank'] at done'
          rw [parseRest_not_ok notOk done, parseRest_not_ok notOk done']
          exact iff_of_true rfl ⟨by simp_all, unfinished notOk done⟩

/-- For a request reached by any earlier calls on prefixes of the content, two calls on the same
received bytes agree exactly when the memory behind them answers the two reads in the same way. -/
theorem parseRequest_same_iff {content : Buffer} (reached : Reached (fun _ _ => True) content req)
    (ext : Extends content buf) (size : buf.size = buf'.size)
    (agree : AgreeBelow buf.size buf.data buf'.data) :
    parseRequest req buf = parseRequest req buf' ↔ SameLookahead req buf buf' ∧
      SameLength req buf buf' := by
  have sound : Sound buf.size req := reached.sound.mono ext.size
  by_cases isOpen : req.Open
  · rw [parseRequest_open isOpen, parseRequest_open isOpen, ← enter_congr size agree]
    rcases enter_cases isOpen sound with ⟨code, which, same⟩ | ⟨q, same, state, soundq, -, -⟩
    · -- no request line yet: nothing behind the received bytes is looked at
      have noLook : runsOutAt req buf = none := by
        rw [runsOutAt, same]
        rcases which with rfl | rfl <;> rfl
      have unfinished : headersDone req buf = none :=
        headersDone_not_entered (by rcases which with rfl | rfl <;> decide) same
      rw [same, SameLookahead, SameLength, noLook, unfinished]
      rcases which with rfl | rfl <;> simp
    · rw [same]
      exact parseRest_same_iff soundq state size agree same
  · rw [SameLookahead, SameLength, runsOutAt_closed isOpen, headersDone_closed isOpen]
    have equal : parseRequest req buf = parseRequest req buf' := by
      rcases state_of_not_open isOpen with state | state
      · rw [parseRequest_body state, parseRequest_body state, parseBody_congr size]
      · rw [parseRequest_complete state, parseRequest_complete state]
    exact iff_of_true equal ⟨by simp, by simp⟩

/-- The rest of a header line arrives, with different memory behind it. -/
theorem parseRequest_same_iff_header_line :
    let first := Buffer.holding (ascii "GET / HTTP/1.1\r\nHost:") []
    let buf := Buffer.holding (ascii "GET / HTTP/1.1\r\nHost:" ++ ascii " a\r\n") (ascii "old")
    let buf' := Buffer.holding (ascii "GET / HTTP/1.1\r\nHost:" ++ ascii " a\r\n") (ascii "\r\n")
    let req := (parseRequest zeroed first).2
    (parseRequest req buf = parseRequest req buf' ↔ SameLookahead req buf buf' ∧ SameLength req buf buf') ∧
      ¬ SameLookahead req buf buf' := by
  intro first buf buf' req
  have reached : Reached (fun _ _ => True) first req := .call (.start first) (.refl _) trivial
  refine ⟨parseRequest_same_iff reached (holding_extends _ _ _ _) rfl (holding_agree _ _ _),
    fun same => ?_⟩
  exact absurd (same 25 (by decide +kernel)) (by decide +kernel)

/-- A request line, with a blank line of an earlier request behind it. -/
def lineThenBlank : Buffer := .holding (ascii "GET / HTTP/1.1\r\n") (ascii "\r\n")

/-- The same request line in fresh memory. -/
def lineThenZeros : Buffer := .holding (ascii "GET / HTTP/1.1\r\n") [0, 0]

/-- With the blank line in the memory behind the received bytes the request is complete, with
zeros it is not. -/
theorem not_same_stale_blank_line :
    Reached (fun _ _ => True) lineThenBlank zeroed ∧ lineThenBlank.size = lineThenZeros.size ∧
      AgreeBelow lineThenBlank.size lineThenBlank.data lineThenZeros.data ∧
      (parseRequest zeroed lineThenBlank).1 = .ok ∧ (parseRequest zeroed lineThenZeros).1 = .uf :=
  ⟨.start _, rfl, holding_agree _ _ _, by decide +kernel, by decide +kernel⟩

end Cask.Http
