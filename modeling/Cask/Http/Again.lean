import Cask.Http.Calls

/-! # Asking for more bytes

A call of `parse_request` that wants more bytes leaves the request where a further call on the
same bytes wants them again, and changes nothing more.
-/

namespace Cask.Http

variable {buf : Buffer} {req q : Request}

/-- A scan that wants more bytes stands where a further scan of the same bytes stops at once. -/
theorem headersLoop_again {left : Nat} (wants : headersLoop buf left req = (.uf, q)) :
    ∃ more, more ≤ left ∧ q.headers.length = req.headers.length + more ∧ q.state = req.state ∧
      headersLoop buf (left - more) q = (.uf, q) := by
  induction left generalizing req with
  | zero => cases wants
  | succ left ih =>
    have stands : req = q → ∃ more, more ≤ left + 1 ∧ q.headers.length = req.headers.length + more ∧
        q.state = req.state ∧ headersLoop buf (left + 1 - more) q = (.uf, q) := by
      rintro rfl
      exact ⟨0, Nat.zero_le _, rfl, rfl, wants⟩
    have start := wants
    rw [headersLoop] at start
    split at start
    · cases start
    · split at start
      · split at start
        · exact stands (congrArg Prod.snd start)
        · split at start
          · cases start
          · -- a header was taken in before the loop ran out of bytes
            obtain ⟨more, bound, length, state, again⟩ := ih start
            refine ⟨more + 1, by omega, ?_, state, ?_⟩
            · rw [length]
              simp only [List.length_append, List.length_singleton]
              omega
            · rwa [Nat.add_sub_add_right]
      · split at start
        · cases start
        · exact stands (congrArg Prod.snd start)

theorem parseHeaders_again (wants : parseHeaders req buf = (.uf, q)) :
    q.state = req.state ∧ parseHeaders q buf = (.uf, q) := by
  obtain ⟨more, -, length, state, again⟩ := headersLoop_again wants
  rw [Nat.sub_sub, ← length] at again
  exact ⟨state, again⟩

theorem parseBody_again (wants : parseBody req buf = (.uf, q)) :
    q.state = req.state ∧ parseBody q buf = (.uf, q) := by
  obtain ⟨-, body⟩ | ⟨nonzero, short, body⟩ | ⟨-, -, body⟩ := parseBody_cases req buf
  · rw [body] at wants
    cases wants
  · rw [body] at wants
    cases wants
    refine ⟨rfl, ?_⟩
    obtain ⟨zero, -⟩ | ⟨-, -, again⟩ | ⟨-, enough, -⟩ :=
      parseBody_cases { req with readBytes := buf.size } buf
    · exact absurd zero nonzero
    · exact again
    · exact absurd short (by exact Int.not_lt.mpr enough)
  · rw [body] at wants
    cases wants

theorem startBody_again (wants : startBody req buf = (.uf, q)) :
    q.state = .body ∧ parseBody q buf = (.uf, q) := by
  unfold startBody at wants
  split at wants
  · exact parseBody_again wants
  · dsimp only at wants
    split at wants
    · cases wants
    · exact parseBody_again wants

theorem parseRest_again (state : req.state = .headers) (wants : parseRest req buf = (.uf, q)) :
    parseRequest q buf = (.uf, q) := by
  cases headers : parseHeaders req buf with
  | mk code r =>
    by_cases ok : code = .ok
    · subst ok
      rw [parseRest_ok headers] at wants
      obtain ⟨state', again⟩ := startBody_again wants
      rw [parseRequest_body state', again]
    · rw [parseRest_not_ok ok headers] at wants
      cases wants
      obtain ⟨state', again⟩ := parseHeaders_again headers
      rw [parseRequest, state', state]
      exact parseRest_not_ok ok again

/-- `parse_request` on the same bytes asks for more bytes again. -/
theorem parseRequest_again (wants : parseRequest req buf = (.uf, q)) :
    parseRequest q buf = (.uf, q) := by
  cases state : req.state with
  | init =>
    have start := wants
    rw [parseRequest, state] at start
    dsimp only at start
    cases line : parseStatusLine req buf with
    | mk code r =>
      rw [line] at start
      cases code with
      | ok => exact parseRest_again rfl start
      | uf =>
        cases start
        -- the request line is not complete, and the request is as it was
        have same : q = req := by
          unfold parseStatusLine at line
          split at line
          · exact (congrArg Prod.snd line).symm
          · rcases parseTokens_cases req buf.data _ with rejected | ⟨_, _, _, -, -, accepted⟩
            · rw [rejected] at line
              cases line
            · rw [accepted] at line
              cases line
        rw [same] at wants ⊢
        exact wants
      | err => cases start
      | trap => cases start
  | headers =>
    rw [parseRequest, state] at wants
    exact parseRest_again state wants
  | body =>
    rw [parseRequest_body state] at wants
    obtain ⟨state', again⟩ := parseBody_again wants
    rw [parseRequest_body (state'.trans state), again]
  | readComplete =>
    rw [parseRequest_complete state] at wants
    cases wants

end Cask.Http
