import Cask.Event.RunTimers

/-! # When `run_timers` ends

The loop of `run_timers` ends when each iteration takes a node out of the tree.  It does so
as long as every linked timer is active: for an inactive timer the loop calls `del_timer`,
which does nothing, and finds the same timer again.  A linked timer becomes inactive when it
is deleted while its node has two children, since then its successor's node is unlinked.

`OneshotRun` are the histories of an event base with one-shot timers, calls of `run_timers`
included; the callbacks may write inactive timers and delete active ones.  What a callback
does only counts where the history calls it.
-/

namespace Cask.Event

open RbTree Fuel

variable {α κ δ : Type} [DecidableEq α]

/-! ## Histories -/

/-- What a callback that adds no timer may do to the timers: write inactive ones and delete
active ones that meet `allowed`.  No timer is freed. -/
inductive AddsNone (allowed : St α (Timer κ δ) → α → Prop) (st : St α (Timer κ δ)) :
    St α (Timer κ δ) → Prop where
  | refl : AddsNone allowed st st
  | write {st' : St α (Timer κ δ)} {a : α} (before : AddsNone allowed st st')
      (inactive : ¬ Active st' a) (node : Rbnode α) (timer : Timer κ δ) (idle : timer.isActive = false) :
      AddsNone allowed st { setTimer st' a timer with node := Function.update st'.node a (some node) }
  | del {st' st'' : St α (Timer κ δ)} {a : α} (before : AddsNone allowed st st') (active : Active st' a)
      (meets : allowed st' a) (ended : Returns (delTimer · st' a) (.ok, st'')) : AddsNone allowed st st''

/-- One iteration of `run_timers` that goes on. -/
def Iterates (callback : κ → δ → St α (Timer κ δ) → St α (Timer κ δ)) (clock : Nat → UInt64)
    (s s' : Running α κ δ) : Prop :=
  Returns (runTimersStep callback clock · s) (.again s')

/-- The callbacks that the loop of `run_timers` calls from `s` on add no timer, and delete only timers
that meet `allowed`. -/
def Quiet (callback : κ → δ → St α (Timer κ δ) → St α (Timer κ δ))
    (allowed : St α (Timer κ δ) → α → Prop) (clock : Nat → UInt64) (s : Running α κ δ) : Prop :=
  ∀ s', Relation.ReflTransGen (Iterates callback clock) s s' →
    ∀ call ∈ s'.fired, AddsNone allowed call.base (callback call.cb call.data call.base)

/-- The histories of an event base with one-shot timers in which every deleted timer meets `allowed`. -/
inductive OneshotRun (callback : κ → δ → St α (Timer κ δ) → St α (Timer κ δ))
    (allowed : St α (Timer κ δ) → α → Prop) : St α (Timer κ δ) → Prop where
  | create (node : α → Option (Rbnode α)) (payload : α → Timer κ δ)
      (inactive : ∀ a, ¬ Active (rbtreeInit node payload) a) :
      OneshotRun callback allowed (rbtreeInit node payload)
  | write {st : St α (Timer κ δ)} {a : α} (run : OneshotRun callback allowed st)
      (inactive : ¬ Active st a) (node : Rbnode α) (timer : Timer κ δ) (idle : timer.isActive = false) :
      OneshotRun callback allowed
        { setTimer st a timer with node := Function.update st.node a (some node) }
  | add {st st' : St α (Timer κ δ)} {a : α} {n : Rbnode α} (run : OneshotRun callback allowed st)
      (found : st.node a = some n) (inactive : ¬ Active st a)
      (oneshot : (st.payload a).isOneshot = true) (now : UInt64)
      (ended : Returns (addTimer · st now a) (.ok, st')) : OneshotRun callback allowed st'
  | del {st st' : St α (Timer κ δ)} {a : α} (run : OneshotRun callback allowed st)
      (active : Active st a) (meets : allowed st a)
      (ended : Returns (delTimer · st a) (.ok, st')) : OneshotRun callback allowed st'
  | runTimers {st : St α (Timer κ δ)} {clock : Nat → UInt64} {final : Running α κ δ}
      (run : OneshotRun callback allowed st) (quiet : Quiet callback allowed clock ⟨st, 1, []⟩)
      (ended : Returns (Event.runTimers callback clock · st) final) : OneshotRun callback allowed final.base

/-! ## The invariant -/

/-- The linked timers are the active ones, and these are one-shot. -/
structure Oneshots (st : St α (Timer κ δ)) (t : ColorTree.Bintree α) : Prop where
  inv : Inv timerCmp st t
  linked : ∀ a, a ∈ t.labels ↔ Active st a
  oneshot : ∀ a, Active st a → (st.payload a).isOneshot = true

section Steps

variable {callback : κ → δ → St α (Timer κ δ) → St α (Timer κ δ)} {clock : Nat → UInt64}
  {s : Running α κ δ} {st st' : St α (Timer κ δ)} {t : ColorTree.Bintree α} {a : α}

omit [DecidableEq α] in
/-- The other flag does not depend on whether the timer is active. -/
theorem isOneshot_setActive (timer : Timer κ δ) : timer.setActive.isOneshot = timer.isOneshot := by
  have apart : timerFlagActive &&& timerFlagOneshot = 0#32 := by decide
  simp only [Timer.isOneshot, Timer.setActive, BitVec.and_or_distrib_right, apart]
  rw [BitVec.or_zero]

omit [DecidableEq α] in
theorem isOneshot_updateTrigger (now : UInt64) (timer : Timer κ δ) :
    (updateTrigger now timer).isOneshot = timer.isOneshot :=
  congrArg (· &&& timerFlagOneshot != 0) (flags_updateTrigger now timer)

theorem Oneshots.write (timers : Oneshots st t) (inactive : ¬ Active st a)
    (node : Option (Rbnode α)) (timer : Timer κ δ) (idle : timer.isActive = false) :
    Oneshots { setTimer st a timer with node := Function.update st.node a node } t := by
  obtain ⟨inv', active⟩ :=
    write_active timers.inv (mt (timers.linked a).mp inactive) inactive node timer idle
  refine ⟨inv', fun b => ?_, fun b still => ?_⟩
  · rw [timers.linked b, (active b).1]
  · have before := (active b).1.mp still
    rw [setTimer_payload, Function.update_of_ne ((active b).2 before)]
    exact timers.oneshot b before

theorem Oneshots.add {n : Rbnode α} (timers : Oneshots st t) (found : st.node a = some n)
    (inactive : ¬ Active st a) (oneshot : (st.payload a).isOneshot = true) (now : UInt64) :
    ∃ st' t', Returns (addTimer · st now a) (.ok, st') ∧ Oneshots st' t' := by
  have idle := isActive_of_not_active found inactive
  obtain ⟨st', t', ended, inv', inTree, nowActive, payload⟩ :=
    addTimer_active timers.inv now found idle (mt (timers.linked a).mp inactive)
  refine ⟨st', t', ended, inv', fun b => ?_, fun b active => ?_⟩
  · rw [inTree b, nowActive b, timers.linked b]
  · by_cases equal : b = a
    · subst equal
      rw [payload, Function.update_self, isOneshot_setActive, isOneshot_updateTrigger]
      exact oneshot
    · rw [payload, Function.update_of_ne equal]
      exact timers.oneshot b (((nowActive b).mp active).resolve_left equal)

theorem Oneshots.del (timers : Oneshots st t) (active : Active st a) (single : SingleChild st a) :
    ∃ st' t', Returns (delTimer · st a) (.ok, st') ∧ Oneshots st' t' ∧
      t'.labels.length < t.labels.length := by
  obtain ⟨n, found, single⟩ := single
  obtain ⟨st', t', ended, inv', inTree, fewer, stillActive, payload⟩ :=
    delTimer_active timers.inv active.choose_spec.2 ((timers.linked a).mpr active) found single
  refine ⟨st', t', ended, ⟨inv', fun b => ?_, fun b still => ?_⟩, fewer⟩
  · rw [inTree b, stillActive b, timers.linked b]
  · obtain ⟨differ, before⟩ := (stillActive b).mp still
    rw [payload, Function.update_of_ne differ]
    exact timers.oneshot b before

/-- A callback that adds no timer leaves at most as many linked timers. -/
theorem Oneshots.addsNone (timers : Oneshots st t) (quiet : AddsNone SingleChild st st') :
    ∃ t', Oneshots st' t' ∧ t'.labels.length ≤ t.labels.length := by
  induction quiet with
  | refl => exact ⟨t, timers, Nat.le_refl _⟩
  | write _ inactive node timer idle ih =>
    obtain ⟨t', timers', fewer⟩ := ih
    exact ⟨t', timers'.write inactive (some node) timer idle, fewer⟩
  | del _ active single ended ih =>
    obtain ⟨t', timers', fewer⟩ := ih
    obtain ⟨st₁, t₁, ended₁, timers₁, fewer₁⟩ := timers'.del active single
    cases ended.unique ended₁
    exact ⟨t₁, timers₁, by omega⟩

omit [DecidableEq α] in
/-- The first timer has no left child. -/
theorem Oneshots.single_first {rest : List α} (timers : Oneshots st t) (first : t.labels = a :: rest) :
    SingleChild st a := by
  obtain ⟨n, found⟩ := allocated_first timers.inv first
  exact ⟨n, found, .inl (timers.inv.leftmost_left first found)⟩

/-- The loop goes on as quietly as it began. -/
theorem Quiet.tail {s' : Running α κ δ} (quiet : Quiet callback SingleChild clock s)
    (step : Iterates callback clock s s') : Quiet callback SingleChild clock s' :=
  fun s'' reached => quiet s'' (.head step reached)

/-- An iteration either leaves the loop or takes at least one timer out of the tree. -/
theorem Oneshots.iteration (quiet : Quiet callback SingleChild clock s) (timers : Oneshots s.base t) :
    Returns (runTimersStep callback clock · s) (.done s) ∨
      ∃ s' t', Iterates callback clock s s' ∧ Oneshots s'.base t' ∧
        t'.labels.length < t.labels.length := by
  cases labels : t.labels with
  | nil => exact .inl (runTimersStep_empty timers.inv labels)
  | cons a rest =>
    have active : Active s.base a := (timers.linked a).mp (by simp [labels])
    obtain ⟨n, found, set⟩ := active
    by_cases due : (s.base.payload a).trigger ≤ clock 0
    · right
      obtain ⟨st₁, t₁, step, deleted, inv₁, labels₁, -⟩ :=
        runTimersStep_oneshot callback timers.inv labels due set
          (timers.oneshot a ⟨n, found, set⟩)
      obtain ⟨st₂, t₂, deleted₂, timers₂, fewer₂⟩ :=
        timers.del ⟨n, found, set⟩ (timers.single_first labels)
      cases deleted.unique deleted₂
      -- the call that the iteration makes is among those of the loop
      have adds := quiet _ (.single step) _ (List.mem_append_right _ List.mem_cons_self)
      obtain ⟨t', timers', fewer⟩ := timers₂.addsNone adds
      refine ⟨_, t', step, timers', ?_⟩
      rw [← labels]
      omega
    · left
      exact runTimersStep_first callback clock timers.inv labels
        (visitTimer_later found (UInt64.not_le.mp due))

theorem Oneshots.loop_returns (quiet : Quiet callback SingleChild clock s) (timers : Oneshots s.base t) :
    ∃ final t', LoopReturns .fuel (runTimersStep callback clock) s final ∧ Oneshots final.base t' := by
  -- the measure is the number of linked timers
  induction size : t.labels.length using Nat.strong_induction_on generalizing s t with
  | _ size ih =>
    obtain stops | ⟨s', t', step, timers', fewer⟩ := timers.iteration quiet
    · exact ⟨s, t, .done stops, timers⟩
    · obtain ⟨final, t'', ended, timers''⟩ := ih _ (size ▸ fewer) (quiet.tail step) timers' rfl
      exact ⟨final, t'', .again step ended, timers''⟩

/-- An iteration that goes on is the one of `Oneshots.iteration`. -/
theorem Oneshots.advance {s' : Running α κ δ} (timers : Oneshots s.base t)
    (quiet : Quiet callback SingleChild clock s) (step : Iterates callback clock s s') :
    ∃ t', Oneshots s'.base t' ∧ t'.labels.length < t.labels.length := by
  obtain stops | ⟨s₁, t', step₁, timers', fewer⟩ := timers.iteration quiet
  · cases step.unique stops
  · cases step.unique step₁
    exact ⟨t', timers', fewer⟩

theorem Oneshots.reached {s' : Running α κ δ} (timers : Oneshots s.base t)
    (quiet : Quiet callback SingleChild clock s)
    (reached : Relation.ReflTransGen (Iterates callback clock) s s') :
    ∃ t', Oneshots s'.base t' ∧ Quiet callback SingleChild clock s' := by
  induction reached with
  | refl => exact ⟨t, timers, quiet⟩
  | tail _ step ih =>
    obtain ⟨t₁, timers₁, quiet₁⟩ := ih
    obtain ⟨t₂, timers₂, -⟩ := timers₁.advance quiet₁ step
    exact ⟨t₂, timers₂, quiet₁.tail step⟩

theorem OneshotRun.timers (run : OneshotRun callback SingleChild st) : ∃ t, Oneshots st t := by
  induction run with
  | create node payload inactive =>
    refine ⟨.nil, inv_init node payload, fun a => ?_, fun a active => absurd active (inactive a)⟩
    exact iff_of_false (by simp [ColorTree.Bintree.labels]) (inactive a)
  | write _ inactive node timer idle ih =>
    obtain ⟨t, timers⟩ := ih
    exact ⟨t, timers.write inactive (some node) timer idle⟩
  | add _ found inactive oneshot now ended ih =>
    obtain ⟨t, timers⟩ := ih
    obtain ⟨st₁, t₁, ended₁, timers₁⟩ := timers.add found inactive oneshot now
    cases ended.unique ended₁
    exact ⟨t₁, timers₁⟩
  | del _ active single ended ih =>
    obtain ⟨t, timers⟩ := ih
    obtain ⟨st₁, t₁, ended₁, timers₁, -⟩ := timers.del active single
    cases ended.unique ended₁
    exact ⟨t₁, timers₁⟩
  | runTimers _ quiet ended ih =>
    obtain ⟨t, timers⟩ := ih
    obtain ⟨final', t', ended', timers'⟩ := Oneshots.loop_returns quiet timers
    cases ended.unique ended'.returns
    exact ⟨t', timers'⟩

end Steps

/-! ## The theorem -/

section Theorem

variable {callback : κ → δ → St α (Timer κ δ) → St α (Timer κ δ)} {clock : Nat → UInt64}
  {st : St α (Timer κ δ)}

/-- On a due timer that is inactive an iteration does nothing: `del_timer` refuses it. -/
theorem visitTimer_inactive {s : Running α κ δ} {a : α} {n : Rbnode α} (found : s.base.node a = some n)
    (due : (s.base.payload a).trigger ≤ clock 0) (idle : (s.base.payload a).isActive = false)
    (fuel : Nat) : visitTimer callback clock fuel s a = .ok (.again s) := by
  have refused : delTimer fuel s.base a = .ok (.err, s.base) := by
    rw [delTimer, timerAt_ok found, ok_bind, if_neg (by simp [idle]), pure_ok]
  rw [visitTimer, timerAt_ok found, ok_bind, if_pos due, if_neg (by simp [idle]), refused, ok_bind]
  rfl

/-- `run_timers` does not end when the leftmost timer is due and inactive. -/
theorem not_returns_of_inactive {a : α} {n : Rbnode α}
    (first : Returns (rbtreeLeftmost · st st.root) (.node a)) (found : st.node a = some n)
    (due : (st.payload a).trigger ≤ clock 0) (idle : (st.payload a).isActive = false)
    (final : Running α κ δ) : ¬ Returns (runTimers callback clock · st) final := by
  obtain ⟨enough, leftmost⟩ := first
  refine not_returns_of_stuck (fun s => s.base = st) enough ?_ rfl
  rintro fuel s bound rfl
  have found' : rbtreeLeftmost fuel s.base s.base.root = .ok (.node a) := leftmost fuel bound
  refine ⟨s, ?_, rfl⟩
  rw [runTimersStep, found', ok_bind]
  exact visitTimer_inactive found due idle fuel

/-- While only timers with at most one child are deleted, by the program and by the callbacks, every
call of `run_timers` ends, and each of its iterations that goes on takes a node out of the tree. -/
theorem runTimers_ends (run : OneshotRun callback SingleChild st) (clock : Nat → UInt64)
    (quiet : Quiet callback SingleChild clock ⟨st, 1, []⟩) :
    (∃ final, Returns (runTimers callback clock · st) final) ∧
      ∀ s s', Relation.ReflTransGen (Iterates callback clock) ⟨st, 1, []⟩ s →
        Iterates callback clock s s' →
        ∃ addrs addrs', InOrder s.base s.base.root addrs ∧ InOrder s'.base s'.base.root addrs' ∧
          addrs'.length < addrs.length := by
  obtain ⟨t, timers⟩ := run.timers
  constructor
  · obtain ⟨final, _, ended, _⟩ := Oneshots.loop_returns quiet timers
    exact ⟨final, ended.returns⟩
  · intro s s' reached next
    obtain ⟨t₁, timers₁, quiet₁⟩ := timers.reached quiet reached
    obtain ⟨t₂, timers₂, fewer⟩ := timers₁.advance quiet₁ next
    exact ⟨_, _, timers₁.inv.inOrder, timers₂.inv.inOrder, fewer⟩

theorem twoTimers_oneshotRun (allowed : St Nat (Timer Unit Unit) → Nat → Prop) :
    OneshotRun (fun _ _ st => st) allowed twoTimers := by
  have idle : (makeTimer 0 timerFlagOneshot () () : Timer Unit Unit).isActive = false := by decide
  have start : OneshotRun (fun _ _ st => st) allowed idleBase := .create _ _ fun a => inactive_of idle
  have first : OneshotRun (fun _ _ st => st) allowed (addNumbered idleBase 2) :=
    .add (a := 2) start rfl (inactive_of idle) rfl 2 (.of_add 9 fun _ => rfl)
  have found : (addNumbered idleBase 2).node 1 = some ⟨.black, .null, .null, .null⟩ := rfl
  have idle' : ((addNumbered idleBase 2).payload 1).isActive = false := rfl
  exact .add (a := 1) first found (inactive_of idle') rfl 1 (.of_add 9 fun _ => rfl)

/-- Timer 2 is deleted while it has one child; timer 1 is left. -/
theorem runTimers_ends_two :
    OneshotRun (fun _ _ st => st) SingleChild (delNumbered twoTimers 2) ∧
      ∃ final, Returns (runTimers (fun _ _ st => st) (fun _ => 5) · (delNumbered twoTimers 2)) final := by
  have quiet : Quiet (fun (_ _ : Unit) (st : St Nat (Timer Unit Unit)) => st) SingleChild (fun _ => 5)
      ⟨delNumbered twoTimers 2, 1, []⟩ := fun _ _ _ _ => .refl
  have active : (twoTimers.payload 2).isActive = true := rfl
  have last : OneshotRun (fun _ _ st => st) SingleChild (delNumbered twoTimers 2) :=
    .del (a := 2) (twoTimers_oneshotRun _) ⟨_, twoTimers_root, active⟩ ⟨_, twoTimers_root, .inr rfl⟩
      (.of_add 9 fun _ => rfl)
  exact ⟨last, (runTimers_ends last (fun _ => 5) quiet).1⟩

/-- The three timers after the deletion of timer 2 and then of timer 1. -/
def strandedTimers : St Nat (Timer Unit Unit) := delNumbered (delNumbered threeTimers 2) 1

/-- Timer 2 is deleted while it has two children, then timer 1.  The only linked timer is timer 2
with the trigger of timer 3, and `run_timers` finds it again and again. -/
theorem not_runTimers_ends_three : ¬ ∀ (st : St Nat (Timer Unit Unit)) (clock : Nat → UInt64),
    OneshotRun (fun _ _ st => st) (fun _ _ => True) st →
    ∃ final, Returns (runTimers (fun _ _ st => st) clock · st) final := by
  intro all
  have found : twoTimers.node 3 = some ⟨.black, .null, .null, .null⟩ := rfl
  have idle : (twoTimers.payload 3).isActive = false := rfl
  have third : OneshotRun (fun _ _ st => st) (fun _ _ => True) threeTimers :=
    .add (a := 3) (twoTimers_oneshotRun _) found (inactive_of idle) rfl 3 (.of_add 9 fun _ => rfl)
  have active : (threeTimers.payload 2).isActive = true := rfl
  have fourth : OneshotRun (fun _ _ st => st) (fun _ _ => True) (delNumbered threeTimers 2) :=
    .del (a := 2) third ⟨_, threeTimers_root, active⟩ trivial (.of_add 9 fun _ => rfl)
  have leaf : (delNumbered threeTimers 2).node 1 = some ⟨.red, .rbnil, .rbnil, .node 2⟩ := rfl
  have active' : ((delNumbered threeTimers 2).payload 1).isActive = true := rfl
  have last : OneshotRun (fun _ _ st => st) (fun _ _ => True) strandedTimers :=
    .del (a := 1) fourth ⟨_, leaf, active'⟩ trivial (.of_add 9 fun _ => rfl)
  obtain ⟨final, ended⟩ := all _ (fun _ => 5) last
  have root : strandedTimers.node 2 = some ⟨.black, .rbnil, .rbnil, .null⟩ := rfl
  have due : (strandedTimers.payload 2).trigger = 3 := rfl
  have idle' : (strandedTimers.payload 2).isActive = false := rfl
  exact not_returns_of_inactive (.of_add 9 fun _ => rfl) root (by rw [due]; decide) idle' final ended

end Theorem

end Cask.Event
