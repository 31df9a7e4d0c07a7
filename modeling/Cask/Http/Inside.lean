import Cask.Http.TwoRuns

/-! # What the handlers get

On `REQ_OK` the request is handed to a route callback, which reads the uri and the body from
the buffer and passes the length of the body on as a `uint32_t`.  The uri and the headers
always lie in the received bytes.  The body does if the announced length is not negative and
the body starts inside; the parser checks neither.
-/

namespace Cask.Http

open Storage

/-- `(uint32_t)len` in `post_callback` -/
def insertLength (req : Request) : BitVec 32 := BitVec.ofInt 32 req.body.len

/-- Everything a handler reads was received, and the length of the body is the number that
reaches `db_insert`. -/
structure Inside (buf : Buffer) (req : Request) : Prop where
  uri : req.uri.Within 0 buf.size
  headers : ∀ header ∈ req.headers, header.Within buf.size
  body : req.body.Within 0 buf.size
  limit : req.body.len ≤ maxBody
  stored : ((insertLength req).toNat : Int) = req.body.len

/-- If the call completes the header block and accepts its `Content-Length`, the length is not
negative, the body starts at a valid `int`, and an empty body starts inside the received bytes. -/
def Fits (req : Request) (buf : Buffer) : Prop :=
  ∀ q cl len, headersDone req buf = some q → findHeader q contentLength buf = some cl →
    announced buf.data cl = some len → 0 ≤ len ∧ 0 ≤ asInt q.readBytes ∧
    (len = 0 → asInt q.readBytes ≤ buf.size)

/-- The body range in each state of the parser. -/
structure BodyOk (n : Nat) (req : Request) : Prop where
  early : req.Open → req.body = ⟨0, 0⟩
  waiting : req.state = .body → 0 ≤ req.body.off ∧ req.body.off < 2 ^ 31 ∧ 0 < req.body.len ∧
    req.body.len ≤ maxBody
  complete : req.state = .readComplete → req.body.Within 0 n ∧ req.body.len ≤ maxBody

variable {buf content : Buffer} {req q : Request} {n : Nat}

theorem BodyOk.of_open (isOpen : req.Open) (early : req.body = ⟨0, 0⟩) : BodyOk n req := by
  refine ⟨fun _ => early, fun wrong => ?_, fun wrong => ?_⟩
  · rcases isOpen with state | state <;> rw [wrong] at state <;> cases state
  · rcases isOpen with state | state <;> rw [wrong] at state <;> cases state

theorem BodyOk.of_complete (state : req.state = .readComplete) (within : req.body.Within 0 n)
    (limit : req.body.len ≤ maxBody) : BodyOk n req := by
  refine ⟨fun isOpen => ?_, fun wrong => ?_, fun _ => ⟨within, limit⟩⟩
  · rcases isOpen with wrong | wrong <;> rw [state] at wrong <;> cases wrong
  · rw [state] at wrong
    cases wrong

theorem BodyOk.mono {m : Nat} (bodyOk : BodyOk n req) (more : n ≤ m) : BodyOk m req := by
  refine ⟨bodyOk.early, bodyOk.waiting, fun state => ?_⟩
  obtain ⟨within, limit⟩ := bodyOk.complete state
  exact ⟨within.mono (Int.le_refl _) (by omega), limit⟩

theorem announced_le {data : Image} {cl : HttpHeader} {len : Int}
    (length : announced data cl = some len) : len ≤ maxBody := by
  unfold announced at length
  split at length
  · cases length
  · cases length
    omega

/-- The body phase, for a length that is not negative. -/
theorem parseBody_bodyOk (small : buf.size < 2 ^ 31) (state : req.state = .body)
    (low : 0 ≤ req.body.off) (high : req.body.off < 2 ^ 31) (positive : 0 ≤ req.body.len)
    (limit : req.body.len ≤ maxBody) (empty : req.body.len = 0 → req.body.off ≤ buf.size) :
    BodyOk buf.size (parseBody req buf).2 := by
  rcases parseBody_cases req buf with ⟨zero, same⟩ | ⟨nonzero, -, same⟩ | ⟨nonzero, enough, same⟩
  · have inside := empty zero
    rw [same]
    exact .of_complete rfl ⟨low, positive, by dsimp only; omega⟩ limit
  · rw [same]
    refine ⟨fun isOpen => ?_, fun _ => ⟨low, high, by dsimp only; omega, limit⟩, fun wrong => ?_⟩
    · rcases isOpen with wrong | wrong <;> simp [state] at wrong
    · simp [state] at wrong
  · rw [same]
    rw [asInt_nat small, asInt_of_range (by omega) (by omega)] at enough
    exact .of_complete rfl ⟨low, positive, by dsimp only; omega⟩ limit

theorem startBody_bodyOk (small : buf.size < 2 ^ 31) (state : req.state = .headers) (early : req.body = ⟨0, 0⟩)
    (fits : ∀ cl len, findHeader req contentLength buf = some cl → announced buf.data cl = some len →
      0 ≤ len ∧ 0 ≤ asInt req.readBytes ∧ (len = 0 → asInt req.readBytes ≤ buf.size)) :
    BodyOk buf.size (startBody req buf).2 := by
  cases found : findHeader req contentLength buf with
  | none =>
    rw [startBody_none found]
    apply parseBody_bodyOk small rfl <;> simp [early, maxBody]
  | some cl =>
    cases length : announced buf.data cl with
    | none =>
      rw [startBody_rejected found length]
      exact .of_open (.inr state) early
    | some len =>
      rw [startBody_accepted found length]
      obtain ⟨positive, low, empty⟩ := fits cl len found length
      exact parseBody_bodyOk small rfl low (asInt_lt _) positive (announced_le length) empty

/-- Step lemma: a call that meets the condition keeps the body inside. -/
theorem BodyOk.parse (bodyOk : BodyOk buf.size req) (sound : Sound buf.size req)
    (small : buf.size < 2 ^ 31) (fits : Fits req buf) :
    BodyOk buf.size (parseRequest req buf).2 := by
  by_cases isOpen : req.Open
  · rcases parseRequest_open_cases isOpen sound with ⟨-, code, q, -, same, openq, -, body⟩
      | ⟨q, done, same, state, -, body⟩
    · rw [same]
      exact .of_open openq (body.trans (bodyOk.early isOpen))
    · rw [same]
      exact startBody_bodyOk small state (body.trans (bodyOk.early isOpen))
        fun cl len => fits q cl len done
  · rcases state_of_not_open isOpen with state | state
    · obtain ⟨low, high, positive, limit⟩ := bodyOk.waiting state
      rw [parseRequest_body state]
      exact parseBody_bodyOk small state low high (by omega) limit (by omega)
    · rw [parseRequest_complete state]
      exact bodyOk

/-- Run lemma. -/
theorem Reached.bodyOk (reached : Reached Fits buf req) (small : buf.size < 2 ^ 31) :
    BodyOk buf.size req := by
  induction reached with
  | start buf => exact .of_open (.inl rfl) rfl
  | call earlier ext fits ih =>
    have smaller := Nat.lt_of_le_of_lt ext.size small
    exact ((ih smaller).mono ext.size).parse (earlier.sound.mono ext.size) small fits

theorem parseBody_ok_state (ok : (parseBody req buf).1 = .ok) :
    (parseBody req buf).2.state = .readComplete := by
  rcases parseBody_cases req buf with ⟨-, same⟩ | ⟨-, -, same⟩ | ⟨-, -, same⟩
  · rw [same]
  · rw [same] at ok
    cases ok
  · rw [same]

theorem startBody_ok_state (ok : (startBody req buf).1 = .ok) :
    (startBody req buf).2.state = .readComplete := by
  cases found : findHeader req contentLength buf with
  | none =>
    rw [startBody_none found] at ok ⊢
    exact parseBody_ok_state ok
  | some cl =>
    cases length : announced buf.data cl with
    | none =>
      rw [startBody_rejected found length] at ok
      cases ok
    | some len =>
      rw [startBody_accepted found length] at ok ⊢
      exact parseBody_ok_state ok

/-- `REQ_OK` means that the request has been read completely. -/
theorem parseRequest_ok_state (sound : Sound buf.size req) (ok : (parseRequest req buf).1 = .ok) :
    (parseRequest req buf).2.state = .readComplete := by
  by_cases isOpen : req.Open
  · rcases parseRequest_open_cases isOpen sound with ⟨-, code, q, notOk, same, -⟩ | ⟨q, -, same, -⟩
    · rw [same] at ok
      exact absurd ok notOk
    · rw [same] at ok ⊢
      exact startBody_ok_state ok
  · rcases state_of_not_open isOpen with state | state
    · rw [parseRequest_body state] at ok ⊢
      exact parseBody_ok_state ok
    · rw [parseRequest_complete state]
      exact state

theorem insertLength_eq (positive : 0 ≤ req.body.len) (limit : req.body.len ≤ maxBody) :
    ((insertLength req).toNat : Int) = req.body.len := by
  have bound : maxBody = 131072 := rfl
  rw [insertLength, BitVec.toNat_ofInt]
  omega

/-- In a sequence of calls on growing content that all meet the condition, a further call that
returns `REQ_OK` hands out ranges of the received bytes exactly when it meets the condition too. -/
theorem ok_inside_iff (earlier : Reached Fits content req) (ext : Extends content buf)
    (small : buf.size < 2 ^ 31) (ok : parseRequest req buf = (.ok, q)) :
    Inside buf q ↔ Fits req buf := by
  have sound := earlier.sound.mono ext.size
  have soundq : Sound buf.size q := by simpa [ok] using sound.parse
  have smaller := Nat.lt_of_le_of_lt ext.size small
  constructor
  · intro inside r cl len done found length
    by_cases isOpen : req.Open
    · rcases parseRequest_open_cases isOpen sound with ⟨none, -⟩ | ⟨r', done', same, -⟩
      · rw [none] at done
        cases done
      · obtain rfl : r' = r := Option.some.inj (done'.symm.trans done)
        -- the body is the one that was announced
        rw [startBody_accepted found length] at same
        have body : q.body = ⟨asInt r'.readBytes, len⟩ := by
          have kept := parseBody_body (r'.withBody len) buf
          rw [← same, ok] at kept
          exact kept
        obtain ⟨low, positive, high⟩ := body ▸ inside.body
        exact ⟨positive, low, fun zero => by dsimp only at high; omega⟩
    · rw [headersDone_closed isOpen] at done
      cases done
  · intro fits
    have bodyOk := ((earlier.bodyOk smaller).mono ext.size).parse sound small fits
    have state := parseRequest_ok_state sound (by rw [ok])
    rw [ok] at bodyOk state
    obtain ⟨within, limit⟩ := bodyOk.complete state
    exact ⟨soundq.uri, soundq.headers, within, limit, insertLength_eq within.2.1 limit⟩

/-- A complete header block without its body. -/
def postHead : Buffer := .holding (ascii "POST / HTTP/1.1\r\nContent-Length: 2\r\n\r\n") [0]

def postWhole : Buffer :=
  .holding (ascii "POST / HTTP/1.1\r\nContent-Length: 2\r\n\r\n" ++ ascii "hi") [0]

/-- The request that waits for the body. -/
def waitingForBody : Request :=
  ⟨.body, 38, .post, .http11, ⟨5, 1⟩, [⟨⟨17, 14⟩, ⟨33, 1⟩⟩], ⟨38, 2⟩⟩

theorem fits_postHead : Fits zeroed postHead := by
  intro q cl len done found length
  have done' : headersDone zeroed postHead = some { waitingForBody with state := .headers, body := ⟨0, 0⟩ } := by
    decide +kernel
  obtain rfl := Option.some.inj (done'.symm.trans done)
  have found' : findHeader { waitingForBody with state := .headers, body := ⟨0, 0⟩ } contentLength postHead =
      some ⟨⟨17, 14⟩, ⟨33, 1⟩⟩ := by decide +kernel
  obtain rfl := Option.some.inj (found'.symm.trans found)
  have length' : announced postHead.data ⟨⟨17, 14⟩, ⟨33, 1⟩⟩ = some 2 := by decide +kernel
  obtain rfl := Option.some.inj (length'.symm.trans length)
  exact ⟨by decide, by decide, by decide⟩

/-- The header block arrives, then the body. -/
theorem ok_inside_iff_post :
    Inside postWhole { waitingForBody with state := .readComplete, readBytes := 40 } := by
  have first : (parseRequest zeroed postHead).2 = waitingForBody := by decide +kernel
  have reached : Reached Fits postHead waitingForBody :=
    first ▸ .call (.start _) (.refl _) fits_postHead
  have fits : Fits waitingForBody postWhole := by
    intro q cl len done
    rw [headersDone_closed (by simp [Request.Open, waitingForBody])] at done
    cases done
  exact (ok_inside_iff reached (holding_extends _ _ _ _) (by decide +kernel) (by decide +kernel)).mpr fits

/-- A negative length is accepted, with a request that claims to be complete. -/
def negativeLength : Buffer := .holding (ascii "POST / HTTP/1.1\r\nContent-Length: -5\r\n\r\n") [0]

theorem not_inside_negative_length :
    Reached (fun _ _ => True) negativeLength zeroed ∧ negativeLength.size < 2 ^ 31 ∧
      (parseRequest zeroed negativeLength).1 = .ok ∧
      (parseRequest zeroed negativeLength).2.body = ⟨39, -5⟩ ∧
      insertLength (parseRequest zeroed negativeLength).2 = 4294967291#32 ∧
      ¬ Inside negativeLength (parseRequest zeroed negativeLength).2 := by
  have body : (parseRequest zeroed negativeLength).2.body = ⟨39, -5⟩ := by decide +kernel
  refine ⟨.start _, by decide +kernel, by decide +kernel, body, by decide +kernel, fun inside => ?_⟩
  have positive := inside.body.2.1
  rw [body] at positive
  exact absurd positive (by decide)

end Cask.Http
