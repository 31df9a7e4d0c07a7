import Mathlib.Logic.Relation
import Mathlib.Tactic.Common

/-! # Loops with fuel

A `while` loop whose body may also stop the program is modelled as a fuel-bounded
iteration in `Except`.  Running out of fuel is one of the errors, so a result is a
statement that the loop really ended.  `Returns` says that every large enough amount of
fuel gives the same result; it is the total-correctness reading of the model.
-/

namespace Fuel

variable {σ ρ ε α β : Type}

/-- What one iteration of a loop does: go round again, or leave with a result. -/
inductive Next (σ ρ : Type) where
  | again (state : σ)
  | done (result : ρ)

/-- Iterate `body` from `state`, at most `fuel` times. -/
def loop (spent : ε) (body : σ → Except ε (Next σ ρ)) : Nat → σ → Except ε ρ
  | 0, _ => .error spent
  | fuel + 1, state =>
    match body state with
    | .error e => .error e
    | .ok (.again state') => loop spent body fuel state'
    | .ok (.done result) => .ok result

/-- Every large enough amount of fuel makes `run` end with `result`. -/
def Returns (run : Nat → Except ε α) (result : α) : Prop :=
  ∃ enough, ∀ fuel, enough ≤ fuel → run fuel = .ok result

variable {spent : ε} {body : σ → Except ε (Next σ ρ)} {state state' : σ} {result : ρ}

/-- A sequence that ended well ran its first part to a result and then the second part. -/
theorem bind_ok {first : Except ε α} {next : α → Except ε β} {b : β}
    (ended : first >>= next = .ok b) : ∃ a, first = .ok a ∧ next a = .ok b := by
  cases first with
  | error e => cases ended
  | ok a => exact ⟨a, rfl, ended⟩

/-- A run has one outcome for large amounts of fuel, be it a result or an error. -/
theorem outcome_unique {run : Nat → Except ε α} {r r' : Except ε α}
    (first : ∃ enough, ∀ fuel, enough ≤ fuel → run fuel = r)
    (second : ∃ enough, ∀ fuel, enough ≤ fuel → run fuel = r') : r = r' := by
  obtain ⟨n, hn⟩ := first
  obtain ⟨m, hm⟩ := second
  exact (hn (max n m) (Nat.le_max_left _ _)).symm.trans (hm (max n m) (Nat.le_max_right _ _))

theorem Returns.unique {run : Nat → Except ε α} {a b : α} (ha : Returns run a) (hb : Returns run b) :
    a = b :=
  Except.ok.inj (outcome_unique ha hb)

theorem Returns.of_add {run : Nat → Except ε α} {result : α} (enough : Nat)
    (ended : ∀ more, run (more + enough) = .ok result) : Returns run result := by
  refine ⟨enough, fun fuel bound => ?_⟩
  have := ended (fuel - enough)
  rwa [Nat.sub_add_cancel bound] at this

/-- A computation that does not use its fuel returns at once. -/
theorem Returns.const (result : α) : Returns (ε := ε) (fun _ => .ok result) result :=
  ⟨0, fun _ _ => rfl⟩

/-- Sequential composition: the fuel of both parts is enough for the whole. -/
theorem Returns.bind {run : Nat → Except ε α} {next : α → Nat → Except ε β} {a : α} {b : β}
    (first : Returns run a) (second : Returns (next a) b) :
    Returns (fun fuel => (run fuel).bind fun a => next a fuel) b := by
  obtain ⟨n, hn⟩ := first
  obtain ⟨m, hm⟩ := second
  refine ⟨max n m, fun fuel bound => ?_⟩
  have hrun := hn fuel (Nat.le_trans (Nat.le_max_left _ _) bound)
  have hnext := hm fuel (Nat.le_trans (Nat.le_max_right _ _) bound)
  simp only [hrun, Except.bind, hnext]

theorem Returns.map {run : Nat → Except ε α} {a : α} (f : α → β) (ended : Returns run a) :
    Returns (fun fuel => (run fuel).map f) (f a) := by
  obtain ⟨n, hn⟩ := ended
  refine ⟨n, fun fuel bound => ?_⟩
  simp only [hn fuel bound, Except.map]

theorem Returns.mapError {run : Nat → Except ε α} {a : α} {η : Type} (f : ε → η)
    (ended : Returns run a) : Returns (fun fuel => (run fuel).mapError f) a := by
  obtain ⟨n, hn⟩ := ended
  refine ⟨n, fun fuel bound => ?_⟩
  simp only [hn fuel bound, Except.mapError]

theorem mapError_ok {η : Type} {run : Except ε α} {f : ε → η} {a : α} (ended : run.mapError f = .ok a) :
    run = .ok a := by
  cases run with
  | error e => cases ended
  | ok b =>
    cases ended
    rfl

theorem Returns.loop_done (step : body state = .ok (.done result)) :
    Returns (loop spent body · state) result := by
  refine ⟨1, fun fuel bound => ?_⟩
  obtain ⟨fuel, rfl⟩ : ∃ k, fuel = k + 1 := ⟨fuel - 1, by omega⟩
  simp only [loop, step]

theorem Returns.loop_again (step : body state = .ok (.again state'))
    (rest : Returns (loop spent body · state') result) :
    Returns (loop spent body · state) result := by
  obtain ⟨n, hn⟩ := rest
  refine ⟨n + 1, fun fuel bound => ?_⟩
  obtain ⟨fuel, rfl⟩ : ∃ k, fuel = k + 1 := ⟨fuel - 1, by omega⟩
  simp only [loop, step]
  exact hn fuel (by omega)

/-- A loop that went round once returns what the rest of it returns. -/
theorem Returns.after_again (step : body state = .ok (.again state'))
    (whole : Returns (loop spent body · state) result) :
    Returns (loop spent body · state') result := by
  obtain ⟨n, hn⟩ := whole
  refine ⟨n, fun fuel bound => ?_⟩
  have ended := hn (fuel + 1) (by omega)
  simpa only [loop, step] using ended

/-- A loop that has ended went round once and ended then, or left at once. -/
theorem loop_ok {fuel : Nat} (ended : loop spent body fuel state = .ok result) : ∃ less, fuel = less + 1 ∧
    ((∃ state', body state = .ok (.again state') ∧ loop spent body less state' = .ok result) ∨
      body state = .ok (.done result)) := by
  cases fuel with
  | zero => cases ended
  | succ less =>
    refine ⟨less, rfl, ?_⟩
    simp only [loop] at ended
    split at ended
    · cases ended
    · next state' step => exact .inl ⟨state', step, ended⟩
    · next step =>
      cases ended
      exact .inr step

theorem not_returns_of_error {e : ε} (step : body state = .error e) :
    ¬ Returns (loop spent body · state) result := by
  rintro ⟨n, hn⟩
  have ended := hn (n + 1) (by omega)
  simp [loop, step] at ended

/-- A loop that goes round again from every state of a set spends all its fuel. -/
theorem loop_of_stays (stays : σ → Prop)
    (again : ∀ state, stays state → ∃ state', body state = .ok (.again state') ∧ stays state')
    (start : stays state) (fuel : Nat) : loop spent body fuel state = .error spent := by
  induction fuel generalizing state with
  | zero => rfl
  | succ fuel ih =>
    obtain ⟨state', step, stays'⟩ := again state start
    simp only [loop, step]
    exact ih stays'

theorem not_returns_of_stays (stays : σ → Prop)
    (again : ∀ state, stays state → ∃ state', body state = .ok (.again state') ∧ stays state')
    (start : stays state) : ¬ Returns (loop spent body · state) result := by
  rintro ⟨n, hn⟩
  have spends : loop spent body n state = .error spent := loop_of_stays stays again start n
  cases (hn n (Nat.le_refl n)).symm.trans spends

/-- What holds of every result the body leaves with holds of the result of the loop. -/
theorem loop_post (post : ρ → Prop)
    (each : ∀ state result, body state = .ok (.done result) → post result) {fuel : Nat}
    (ended : loop spent body fuel state = .ok result) : post result := by
  induction fuel generalizing state with
  | zero => cases ended
  | succ fuel ih =>
    simp only [loop] at ended
    split at ended
    · cases ended
    · exact ih ended
    · next step =>
      cases ended
      exact each _ _ step

/-- More fuel does not change the result of a loop that has ended. -/
theorem loop_mono {fuel fuel' : Nat} (ended : loop spent body fuel state = .ok result)
    (more : fuel ≤ fuel') : loop spent body fuel' state = .ok result := by
  induction fuel generalizing state fuel' with
  | zero => simp [loop] at ended
  | succ fuel ih =>
    obtain ⟨fuel', rfl⟩ : ∃ k, fuel' = k + 1 := ⟨fuel' - 1, by omega⟩
    simp only [loop] at ended ⊢
    split at ended
    · cases ended
    · exact ih ended (by omega)
    · exact ended

/-- A loop with a bound that every round lowers ends within as many rounds. -/
theorem loop_within (within : Nat → σ → Prop)
    (round : ∀ bound state, within bound state → (∃ result, body state = .ok (.done result)) ∨
      ∃ state' less, body state = .ok (.again state') ∧ less < bound ∧ within less state')
    {bound fuel : Nat} (start : within bound state) (enough : bound < fuel) :
    ∃ result, loop spent body fuel state = .ok result := by
  induction fuel generalizing bound state with
  | zero => exact absurd enough (Nat.not_lt_zero _)
  | succ fuel ih =>
    obtain ⟨result, step⟩ | ⟨state', less, step, lower, start'⟩ := round bound state start
    · exact ⟨result, by simp only [loop, step]⟩
    · obtain ⟨result, rest⟩ := ih start' (by omega)
      exact ⟨result, by simp only [loop, step, rest]⟩

/-- Two iterations that go on to states, or leave with results, that belong together. -/
inductive Next.Follows {τ π : Type} (rel : σ → τ → Prop) (post : ρ → π → Prop) : Next σ ρ → Next τ π → Prop where
  | again {s : σ} {t : τ} (holds : rel s t) : Next.Follows rel post (.again s) (.again t)
  | done {r : ρ} {r' : π} (holds : post r r') : Next.Follows rel post (.done r) (.done r')

/-- A loop that follows another one round by round ends when that one does. -/
theorem loop_follows {τ π : Type} {body' : τ → Except ε (Next τ π)} {rel : σ → τ → Prop} {post : ρ → π → Prop}
    (round : ∀ s t next, rel s t → body s = .ok next → ∃ next', body' t = .ok next' ∧ next.Follows rel post next')
    {fuel : Nat} {t : τ} (start : rel state t) (ended : loop spent body fuel state = .ok result) :
    ∃ result', loop spent body' fuel t = .ok result' ∧ post result result' := by
  induction fuel generalizing state t with
  | zero => cases ended
  | succ fuel ih =>
    obtain ⟨less, same, ⟨state', step, rest⟩ | step⟩ := loop_ok ended
    · cases same
      obtain ⟨_, step', holds⟩ := round state t _ start step
      cases holds with
      | again holds =>
        simp only [loop, step']
        exact ih holds rest
    · obtain ⟨_, step', holds⟩ := round state t _ start step
      cases holds with
      | done holds => exact ⟨_, by simp only [loop, step'], holds⟩

/-- A loop that has ended has ended with what it returns. -/
theorem Returns.of_ended {fuel : Nat} (returns : Returns (loop spent body · state) result)
    (ended : ∃ result, loop spent body fuel state = .ok result) : loop spent body fuel state = .ok result := by
  obtain ⟨result', ended⟩ := ended
  have same : Returns (loop spent body · state) result' := ⟨fuel, fun _ more => loop_mono ended more⟩
  rw [ended, same.unique returns]

/-! ## Runs that stop with an error -/

/-- Every large enough amount of fuel makes `run` end with the error `e`. -/
def Stops (run : Nat → Except ε α) (e : ε) : Prop :=
  ∃ enough, ∀ fuel, enough ≤ fuel → run fuel = .error e

theorem Stops.not_returns {run : Nat → Except ε α} {e : ε} {a : α} (stops : Stops run e) :
    ¬ Returns run a := by
  intro returns
  cases outcome_unique stops returns

/-! ## Loops whose body runs loops -/

/-- The loop ends with `result` once the fuel of its body and its own are both large enough. -/
def LoopReturns (spent : ε) (body : Nat → σ → Except ε (Next σ ρ)) (state : σ) (result : ρ) : Prop :=
  ∃ enough, ∀ inner outer, enough ≤ inner → enough ≤ outer →
    loop spent (body inner) outer state = .ok result

section Nested

variable {body : Nat → σ → Except ε (Next σ ρ)}

theorem LoopReturns.done (step : Returns (body · state) (.done result)) :
    LoopReturns spent body state result := by
  obtain ⟨n, hn⟩ := step
  refine ⟨n + 1, fun inner outer enough bound => ?_⟩
  obtain ⟨outer, rfl⟩ : ∃ k, outer = k + 1 := ⟨outer - 1, by omega⟩
  simp only [loop, hn inner (by omega)]

theorem LoopReturns.again (step : Returns (body · state) (.again state'))
    (rest : LoopReturns spent body state' result) : LoopReturns spent body state result := by
  obtain ⟨n, hn⟩ := step
  obtain ⟨m, hm⟩ := rest
  refine ⟨max n m + 1, fun inner outer enough bound => ?_⟩
  obtain ⟨outer, rfl⟩ : ∃ k, outer = k + 1 := ⟨outer - 1, by omega⟩
  simp only [loop, hn inner (by omega)]
  exact hm inner outer (by omega) (by omega)

theorem LoopReturns.returns (ended : LoopReturns spent body state result) :
    Returns (fun fuel => loop spent (body fuel) fuel state) result := by
  obtain ⟨n, hn⟩ := ended
  exact ⟨n, fun fuel bound => hn fuel fuel bound bound⟩

/-- A loop that goes round again from every state of a set, once its body has enough fuel, does
not end. -/
theorem not_returns_of_stuck (stuck : σ → Prop) (enough : Nat)
    (again : ∀ fuel state, enough ≤ fuel → stuck state →
      ∃ state', body fuel state = .ok (.again state') ∧ stuck state') (start : stuck state) :
    ¬ Returns (fun fuel => loop spent (body fuel) fuel state) result := by
  rintro ⟨n, hn⟩
  have ended := hn (max n enough) (Nat.le_max_left _ _)
  suffices never : ∀ outer state, stuck state →
      loop spent (body (max n enough)) outer state ≠ .ok result from never _ state start ended
  intro outer
  induction outer with
  | zero => simp [loop]
  | succ outer ih =>
    intro state within
    obtain ⟨state', step, within'⟩ := again (max n enough) state (Nat.le_max_right _ _) within
    simp only [loop, step]
    exact ih state' within'

end Nested

/-! ## Runs of a step relation -/

/-- A run of a deterministic relation goes on to every other one that has stopped. -/
theorem runs_to_stop {step : α → α → Prop} {a b c : α} (unique : Relator.RightUnique step)
    (first : Relation.ReflTransGen step a b) (second : Relation.ReflTransGen step a c)
    (stopped : ∀ d, ¬ step c d) : Relation.ReflTransGen step b c := by
  obtain forth | back := first.total_of_right_unique unique second
  · exact forth
  · obtain rfl | ⟨d, next, -⟩ := back.cases_head
    · exact .refl
    · exact absurd next (stopped d)

/-- Two runs of a deterministic relation that have stopped have the same end. -/
theorem stop_unique {step : α → α → Prop} {a b c : α} (unique : Relator.RightUnique step)
    (first : Relation.ReflTransGen step a b) (second : Relation.ReflTransGen step a c)
    (stopped : ∀ d, ¬ step b d) (stopped' : ∀ d, ¬ step c d) : b = c := by
  obtain same | ⟨d, next, -⟩ := (runs_to_stop unique first second stopped').cases_head
  · exact same
  · exact absurd next (stopped d)

end Fuel
