import Cask.Lib.Fuel
import Mathlib.Logic.Function.Basic

/-! # Objects behind a readers-writer lock

The calls on an object are programs over a shared state.  A thread runs the statements of its call
one by one, and the threads are interleaved in any way that the lock allows.  If only calls that hold
the lock for writing change the state, then the calls and results that can be observed are those of
an object whose calls take effect in one step, between the call and the return.
-/

namespace RwLock

open Fuel

/-! ## Traces -/

/-- The events of the runs of a transition system from `start`, whose silent steps have no event. -/
inductive Trace {W E : Type} (step : W → Option E → W → Prop) (start : W) : List E → W → Prop where
  | start : Trace step start [] start
  | silent {history : List E} {w w' : W} (earlier : Trace step start history w) (taken : step w none w') :
      Trace step start history w'
  | event {history : List E} {w w' : W} {e : E} (earlier : Trace step start history w) (taken : step w (some e) w') :
      Trace step start (history ++ [e]) w'

section Trace

variable {W V E : Type} {step : W → Option E → W → Prop} {step' : V → Option E → V → Prop} {w₀ w : W} {v₀ v : V}
  {history : List E}

/-- If every step is one of the other system, or a silent one that it does not see, then so is every
trace. -/
theorem Trace.simulated {Matches : W → V → Prop} (start : Matches w₀ v₀)
    (each : ∀ w v e w', Matches w v → step w e w' → ∃ v', Matches w' v' ∧ (step' v e v' ∨ e = none ∧ v' = v))
    (trace : Trace step w₀ history w) : ∃ v, Trace step' v₀ history v ∧ Matches w v := by
  induction trace with
  | start => exact ⟨v₀, .start, start⟩
  | @silent history w w' _ taken ih =>
    obtain ⟨v, earlier, holds⟩ := ih
    obtain ⟨v', holds', taken' | ⟨-, rfl⟩⟩ := each w v none w' holds taken
    · exact ⟨v', .silent earlier taken', holds'⟩
    · exact ⟨v', earlier, holds'⟩
  | @event history w w' e _ taken ih =>
    obtain ⟨v, earlier, holds⟩ := ih
    obtain ⟨v', holds', taken' | ⟨clash, -⟩⟩ := each w v (some e) w' holds taken
    · exact ⟨v', .event earlier taken', holds'⟩
    · cases clash

theorem Trace.mono {later : W → Option E → W → Prop} (each : ∀ w e w', step w e w' → later w e w')
    (trace : Trace step w₀ history w) : Trace later w₀ history w := by
  induction trace with
  | start => exact .start
  | silent _ taken ih => exact .silent ih (each _ _ _ taken)
  | event _ taken ih => exact .event ih (each _ _ _ taken)

end Trace

/-! ## Objects -/

variable {σ ω ρ ε τ : Type} {π : ω → Type}

/-- A statement that leaves the shared state `s` as it is. -/
def Quiet {κ : Type} (s : σ) : Except ε (Next (κ × σ) (ρ × σ)) → Prop
  | .error _ => True
  | .ok (.again (_, s')) => s' = s
  | .ok (.done (_, s')) => s' = s

/-- The calls `ω` of an object, with the places `π` in their code.  In front of the lock a call goes in, or returns because the lock call
has failed; inside, `step` is the statement at a place, and an error stops the whole program. -/
structure Object (σ ω : Type) (π : ω → Type) (ρ ε : Type) where
  writes : ω → Bool
  enter : ∀ op, Except ρ (π op)
  step : ∀ op, π op × σ → Except ε (Next (π op × σ) (ρ × σ))
  reads : ∀ op, writes op = false → ∀ pc s, Quiet s (step op (pc, s))

/-- The call on its own. -/
def Object.Runs (object : Object σ ω π ρ ε) (spent : ε) (op : ω) (s : σ) (result : ρ) (s' : σ) : Prop :=
  match object.enter op with
  | .error refused => result = refused ∧ s' = s
  | .ok pc => Returns (loop spent (object.step op) · (pc, s)) (result, s')

inductive Event (τ ω ρ : Type) where
  | call (t : τ) (op : ω)
  | ret (t : τ) (op : ω) (result : ρ)

/-! ## Interleavings -/

/-- Where a thread is: it has called, holds the lock at some statement or in front of the unlock, or
is about to return. -/
inductive Place (ω : Type) (π : ω → Type) (ρ : Type) where
  | idle
  | called (op : ω)
  | inside (op : ω) (pc : π op)
  | leaving (op : ω) (result : ρ)
  | ready (op : ω) (result : ρ)

/-- The call for which a thread holds the lock. -/
def Place.holds : Place ω π ρ → Option ω
  | .inside op _ => some op
  | .leaving op _ => some op
  | _ => none

structure World (σ ω : Type) (π : ω → Type) (ρ τ : Type) where
  state : σ
  place : τ → Place ω π ρ

/-- Nobody has called yet. -/
def World.quiet (s : σ) : World σ ω π ρ τ := ⟨s, fun _ => .idle⟩

/-- The lock lets a reader in when no writer holds it, and a writer when nobody does. -/
def Object.Admits (object : Object σ ω π ρ ε) (w : World σ ω π ρ τ) (op : ω) : Prop :=
  ∀ t held, (w.place t).holds = some held → object.writes op = false ∧ object.writes held = false

variable [DecidableEq τ]

def World.goto (w : World σ ω π ρ τ) (t : τ) (place : Place ω π ρ) : World σ ω π ρ τ :=
  { w with place := Function.update w.place t place }

theorem goto_self (w : World σ ω π ρ τ) (t : τ) (place : Place ω π ρ) : (w.goto t place).place t = place :=
  Function.update_self ..

theorem goto_of_ne {t u : τ} (other : u ≠ t) (w : World σ ω π ρ τ) (place : Place ω π ρ) :
    (w.goto t place).place u = w.place u :=
  Function.update_of_ne other ..

/-- One step of one thread. -/
inductive Step (object : Object σ ω π ρ ε) :
    World σ ω π ρ τ → Option (Event τ ω ρ) → World σ ω π ρ τ → Prop where
  | call {w : World σ ω π ρ τ} {t : τ} (op : ω) (here : w.place t = .idle) :
      Step object w (some (.call t op)) (w.goto t (.called op))
  | refuse {w : World σ ω π ρ τ} {t : τ} {op : ω} {result : ρ} (here : w.place t = .called op)
      (entry : object.enter op = .error result) : Step object w none (w.goto t (.ready op result))
  | lock {w : World σ ω π ρ τ} {t : τ} {op : ω} {pc : π op} (here : w.place t = .called op)
      (entry : object.enter op = .ok pc) (admits : object.Admits w op) :
      Step object w none (w.goto t (.inside op pc))
  | run {w : World σ ω π ρ τ} {t : τ} {op : ω} {pc pc' : π op} {s' : σ} (here : w.place t = .inside op pc)
      (taken : object.step op (pc, w.state) = .ok (.again (pc', s'))) :
      Step object w none { w.goto t (.inside op pc') with state := s' }
  | finish {w : World σ ω π ρ τ} {t : τ} {op : ω} {pc : π op} {result : ρ} {s' : σ} (here : w.place t = .inside op pc)
      (taken : object.step op (pc, w.state) = .ok (.done (result, s'))) :
      Step object w none { w.goto t (.leaving op result) with state := s' }
  | unlock {w : World σ ω π ρ τ} {t : τ} {op : ω} {result : ρ} (here : w.place t = .leaving op result) :
      Step object w none (w.goto t (.ready op result))
  | ret {w : World σ ω π ρ τ} {t : τ} {op : ω} {result : ρ} (here : w.place t = .ready op result) :
      Step object w (some (.ret t op result)) (w.goto t .idle)

/-! ## The atomic object -/

/-- Where a caller of the atomic object is. -/
inductive Caller (ω ρ : Type) where
  | idle
  | called (op : ω)
  | done (op : ω) (result : ρ)

structure Atomic (σ ω ρ τ : Type) where
  state : σ
  caller : τ → Caller ω ρ

def Atomic.quiet (s : σ) : Atomic σ ω ρ τ := ⟨s, fun _ => .idle⟩

/-- A call takes effect in one step. -/
inductive AtomicStep (effect : ω → σ → ρ → σ → Prop) :
    Atomic σ ω ρ τ → Option (Event τ ω ρ) → Atomic σ ω ρ τ → Prop where
  | call {a : Atomic σ ω ρ τ} {t : τ} (op : ω) (here : a.caller t = .idle) :
      AtomicStep effect a (some (.call t op)) { a with caller := Function.update a.caller t (.called op) }
  | effect {a : Atomic σ ω ρ τ} {t : τ} {op : ω} {result : ρ} {s' : σ} (here : a.caller t = .called op)
      (runs : effect op a.state result s') :
      AtomicStep effect a none ⟨s', Function.update a.caller t (.done op result)⟩
  | ret {a : Atomic σ ω ρ τ} {t : τ} {op : ω} {result : ρ} (here : a.caller t = .done op result) :
      AtomicStep effect a (some (.ret t op result)) { a with caller := Function.update a.caller t .idle }

theorem AtomicStep.mono {effect effect' : ω → σ → ρ → σ → Prop} {a a' : Atomic σ ω ρ τ} {e : Option (Event τ ω ρ)}
    (each : ∀ op s result s', effect op s result s' → effect' op s result s') (taken : AtomicStep effect a e a') :
    AtomicStep effect' a e a' := by
  cases taken with
  | call op here => exact .call op here
  | effect here runs => exact .effect here (each _ _ _ _ runs)
  | ret here => exact .ret here

/-- What is seen of a thread from outside; its call takes effect with its last statement. -/
def Place.seen : Place ω π ρ → Caller ω ρ
  | .idle => .idle
  | .called op => .called op
  | .inside op _ => .called op
  | .leaving op result => .done op result
  | .ready op result => .done op result

/-! ## The interleavings are those of the atomic object -/

section Simulation

variable {object : Object σ ω π ρ ε} {spent : ε} {w : World σ ω π ρ τ} {a : Atomic σ ω ρ τ} {t u : τ} {op : ω}
  {pc pc' : π op} {result : ρ} {s s' : σ}

/-- The statements of a call from one place and state to another. -/
def Object.Reaches (object : Object σ ω π ρ ε) (op : ω) : π op × σ → π op × σ → Prop :=
  Relation.ReflTransGen fun before after => object.step op before = .ok (.again after)

theorem Object.Reaches.returns {before after : π op × σ} {last : ρ × σ} (reaches : object.Reaches op before after)
    (rest : Returns (loop spent (object.step op) · after) last) :
    Returns (loop spent (object.step op) · before) last := by
  induction reaches with
  | refl => exact rest
  | tail _ taken ih => exact ih (.loop_again taken rest)

theorem Object.Reaches.rest_returns {before after : π op × σ} {last : ρ × σ} (reaches : object.Reaches op before after)
    (whole : Returns (loop spent (object.step op) · before) last) :
    Returns (loop spent (object.step op) · after) last := by
  induction reaches with
  | refl => exact whole
  | tail _ taken ih => exact .after_again taken ih

/-- A thread that holds the lock for writing is the only one that holds it; until its call takes
effect, the atomic object has the state in which it came in. -/
structure Matches (object : Object σ ω π ρ ε) (w : World σ ω π ρ τ) (a : Atomic σ ω ρ τ) : Prop where
  seen : ∀ t, a.caller t = (w.place t).seen
  alone : ∀ t u op held, (w.place t).holds = some op → (w.place u).holds = some held → t ≠ u →
    object.writes op = false
  shared : (∀ t op pc, w.place t = .inside op pc → object.writes op = false) → w.state = a.state
  underway : ∀ t op pc, w.place t = .inside op pc →
    ∃ start, object.enter op = .ok start ∧ object.Reaches op (start, a.state) (pc, w.state)

omit [DecidableEq τ] in
theorem matches_quiet (object : Object σ ω π ρ ε) (s : σ) :
    Matches object (World.quiet s : World σ ω π ρ τ) (Atomic.quiet s) := by
  refine ⟨fun t => rfl, fun t u op held here => ?_, fun _ => rfl, fun t op pc here => ?_⟩
  · cases here
  · cases here

theorem goto_seen (holds : Matches object w a) (t u : τ) (place : Place ω π ρ) :
    Function.update a.caller t place.seen u = ((w.goto t place).place u).seen := by
  by_cases same : u = t
  · rw [same, Function.update_self, goto_self]
  · rw [Function.update_of_ne same, goto_of_ne same]
    exact holds.seen u

/-- A thread that goes on without taking the lock does not take it from the others. -/
theorem Matches.alone_goto (holds : Matches object w a) (t : τ) (place : Place ω π ρ)
    (keeps : place.holds = none ∨ place.holds = (w.place t).holds) :
    ∀ v u op held, ((w.goto t place).place v).holds = some op → ((w.goto t place).place u).holds = some held →
      v ≠ u → object.writes op = false := by
  have before : ∀ v op, ((w.goto t place).place v).holds = some op → (w.place v).holds = some op := by
    intro v op here
    by_cases same : v = t
    · subst same
      rw [goto_self] at here
      cases keeps with
      | inl none =>
        rw [none] at here
        cases here
      | inr kept => exact kept ▸ here
    · rwa [goto_of_ne same] at here
  intro v u op held first second
  exact holds.alone v u op held (before v op first) (before u held second)

/-- A step outside the section, with its event or without. -/
theorem Matches.outside (holds : Matches object w a) (t : τ) (place : Place ω π ρ) (free : place.holds = none)
    (before : ∀ op pc, w.place t ≠ .inside op pc) :
    Matches object (w.goto t place) { a with caller := Function.update a.caller t place.seen } := by
  have same : ∀ u op pc, (w.goto t place).place u = .inside op pc → w.place u = .inside op pc := by
    intro u op pc here
    by_cases moved : u = t
    · rw [moved, goto_self] at here
      rw [here] at free
      cases free
    · rwa [goto_of_ne moved] at here
  refine ⟨fun u => goto_seen holds t u place, holds.alone_goto t place (.inl free), fun readers => ?_,
    fun u op pc here => holds.underway u op pc (same u op pc here)⟩
  · apply holds.shared
    intro u op pc here
    by_cases moved : u = t
    · exact absurd (moved ▸ here) (before op pc)
    · apply readers u op pc
      rwa [goto_of_ne moved]

theorem Matches.lock (holds : Matches object w a) (here : w.place t = .called op) (entry : object.enter op = .ok pc)
    (admits : object.Admits w op) : Matches object (w.goto t (.inside op pc)) a := by
  -- no writer is inside, so that the state is the one of the atomic object
  have state : w.state = a.state := by
    apply holds.shared
    intro u held at_ inside
    exact (admits u held (by rw [inside]; rfl)).2
  refine ⟨fun u => ?_, fun v u op' held first second differ => ?_, fun _ => state, fun u op' at_ inside => ?_⟩
  · rw [← goto_seen holds t u, Place.seen]
    by_cases same : u = t
    · rw [same, Function.update_self, holds.seen t, here]
      rfl
    · rw [Function.update_of_ne same]
  · by_cases mine : v = t
    · rw [mine, goto_self] at first
      cases first
      rw [mine] at differ
      rw [goto_of_ne differ.symm] at second
      exact (admits u held second).1
    · rw [goto_of_ne mine] at first
      exact (admits v op' first).2
  · by_cases mine : u = t
    · rw [mine, goto_self] at inside
      cases inside
      exact ⟨pc, entry, state ▸ .refl⟩
    · rw [goto_of_ne mine] at inside
      exact holds.underway u op' at_ inside

/-- The state changes only under a thread that is alone. -/
theorem Matches.alone_or_quiet (holds : Matches object w a) (here : w.place t = .inside op pc)
    {after : Next (π op × σ) (ρ × σ)} (taken : object.step op (pc, w.state) = .ok after) :
    object.writes op ≠ false ∧ (∀ u held at_, u ≠ t → w.place u ≠ .inside held at_) ∨
      w.state = a.state ∧ Quiet (ε := ε) w.state (.ok after) := by
  by_cases reader : object.writes op = false
  · refine .inr ⟨holds.shared fun u held at_ inside => ?_, taken ▸ object.reads op reader pc w.state⟩
    by_cases same : u = t
    · rw [same, here] at inside
      cases inside
      exact reader
    · exact holds.alone u t held op (by rw [inside]; rfl) (by rw [here]; rfl) same
  · refine .inl ⟨reader, fun u held at_ other inside => reader ?_⟩
    exact holds.alone t u op held (by rw [here]; rfl) (by rw [inside]; rfl) (Ne.symm other)

theorem Matches.run (holds : Matches object w a) (here : w.place t = .inside op pc)
    (taken : object.step op (pc, w.state) = .ok (.again (pc', s'))) :
    Matches object { w.goto t (.inside op pc') with state := s' } a := by
  have cases_ := holds.alone_or_quiet here taken
  refine ⟨fun u => ?_, holds.alone_goto t (.inside op pc') (.inr (by rw [here]; rfl)), fun readers => ?_,
    fun u held at_ inside => ?_⟩
  · rw [← goto_seen holds t u, Place.seen]
    by_cases same : u = t
    · rw [same, Function.update_self, holds.seen t, here]
      rfl
    · rw [Function.update_of_ne same]
  · obtain ⟨writer, -⟩ | ⟨state, same⟩ := cases_
    · exact absurd (readers t op pc' (goto_self ..)) writer
    · exact same.trans state
  · by_cases mine : u = t
    · have at_here : (Place.inside op pc' : Place ω π ρ) = .inside held at_ := by
        rw [← inside, mine]
        exact (goto_self ..).symm
      cases at_here
      obtain ⟨start, entry, reaches⟩ := holds.underway t op pc here
      exact ⟨start, entry, reaches.tail taken⟩
    · have before : w.place u = .inside held at_ := (goto_of_ne mine w _).symm.trans inside
      obtain ⟨-, alone⟩ | ⟨-, same⟩ := cases_
      · exact absurd before (alone u held at_ mine)
      · cases same
        exact holds.underway u held at_ before

/-- The last statement of a call, and its effect on the atomic object. -/
theorem Matches.finish (holds : Matches object w a) (here : w.place t = .inside op pc)
    (taken : object.step op (pc, w.state) = .ok (.done (result, s'))) :
    object.Runs spent op a.state result s' ∧
      Matches object { w.goto t (.leaving op result) with state := s' }
        ⟨s', Function.update a.caller t (.done op result)⟩ := by
  have cases_ := holds.alone_or_quiet here taken
  constructor
  · obtain ⟨start, entry, reaches⟩ := holds.underway t op pc here
    rw [Object.Runs, entry]
    exact reaches.returns (.loop_done taken)
  refine ⟨fun u => goto_seen holds t u (.leaving op result), holds.alone_goto t (.leaving op result) (.inr (by rw [here]; rfl)),
    fun _ => rfl, fun u held at_ inside => ?_⟩
  by_cases mine : u = t
  · have clash : Place.leaving op result = .inside held at_ := by
      rw [← inside, mine]
      exact (goto_self ..).symm
    cases clash
  · have before : w.place u = .inside held at_ := (goto_of_ne mine w _).symm.trans inside
    obtain ⟨-, alone⟩ | ⟨state, same⟩ := cases_
    · exact absurd before (alone u held at_ mine)
    · cases same
      obtain ⟨start, entry, reaches⟩ := holds.underway u held at_ before
      exact ⟨start, entry, state ▸ reaches⟩

/-- Every step is one of the atomic object, or is not seen from outside. -/
theorem Matches.step {e : Option (Event τ ω ρ)} {w' : World σ ω π ρ τ} (holds : Matches object w a)
    (taken : Step object w e w') :
    ∃ a', Matches object w' a' ∧ (AtomicStep (object.Runs spent) a e a' ∨ e = none ∧ a' = a) := by
  cases taken with
  | @call t op here =>
    have caller : a.caller t = .idle := by rw [holds.seen t, here]; rfl
    exact ⟨_, holds.outside t (.called op) rfl (by simp [here]), .inl (.call op caller)⟩
  | @refuse t op result here entry =>
    have caller : a.caller t = .called op := by rw [holds.seen t, here]; rfl
    have runs : object.Runs spent op a.state result a.state := by
      rw [Object.Runs, entry]
      exact ⟨rfl, rfl⟩
    exact ⟨_, holds.outside t (.ready op result) rfl (by simp [here]), .inl (.effect caller runs)⟩
  | lock here entry admits => exact ⟨a, holds.lock here entry admits, .inr ⟨rfl, rfl⟩⟩
  | run here taken => exact ⟨a, holds.run here taken, .inr ⟨rfl, rfl⟩⟩
  | @finish t op pc result s' here taken =>
    have caller : a.caller t = .called op := by rw [holds.seen t, here]; rfl
    obtain ⟨runs, holds'⟩ := holds.finish here taken
    exact ⟨_, holds', .inl (.effect caller runs)⟩
  | @unlock t op result here =>
    have caller : a.caller t = .done op result := by rw [holds.seen t, here]; rfl
    have holds' := holds.outside t (.ready op result) rfl (by simp [here])
    rw [Place.seen, ← caller, Function.update_eq_self] at holds'
    exact ⟨a, holds', .inr ⟨rfl, rfl⟩⟩
  | @ret t op result here =>
    have caller : a.caller t = .done op result := by rw [holds.seen t, here]; rfl
    exact ⟨_, holds.outside t .idle rfl (by simp [here]), .inl (.ret caller)⟩

variable (spent) in
/-- What is seen of an interleaving can be seen of the atomic object. -/
theorem linearizable {history : List (Event τ ω ρ)} (trace : Trace (Step object) (World.quiet s) history w) :
    ∃ a, Trace (AtomicStep (object.Runs spent)) (Atomic.quiet s) history a ∧ Matches object w a :=
  trace.simulated (matches_quiet object s) fun _ _ _ _ holds taken => holds.step taken

end Simulation

end RwLock
