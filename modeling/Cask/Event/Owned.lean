import Cask.Event.Timer

/-! # Timers inside of other objects

A timer that is a member of a larger object is allocated and freed with it, and calls back with
this object.  `Owned` is what an event base needs of such timers; it lasts as long
as no timer is taken out of the tree while its node has two children.
-/

namespace Cask.Event

open RbTree Fuel

variable {α κ δ : Type} {st : St α (Timer κ δ)} {owner : α → κ × δ} {allocated : α → Prop} {a : α}

/-- The callback of a timer, and what it is called with. -/
def Timer.target (timer : Timer κ δ) : κ × δ := (timer.cb, timer.data)

theorem target_of_trigger (timer : Timer κ δ) (trigger : UInt64) :
    { timer with trigger := trigger }.target = timer.target :=
  rfl

theorem updateTrigger_target (now : UInt64) (timer : Timer κ δ) :
    (updateTrigger now timer).target = timer.target :=
  target_of_trigger timer _

/-- The tree holds exactly the active timers, which are those of allocated objects, each with the
callback and the data that belong to its object. -/
structure Owned (owner : α → κ × δ) (st : St α (Timer κ δ)) (allocated : α → Prop) : Prop where
  tree : ∃ t added, Inv timerCmp st t ∧ Exact st added ∧ ∀ b, (added b).target = owner b
  memory : ∀ b, (∃ n, st.node b = some n) ↔ allocated b

theorem Owned.target (owned : Owned owner st allocated) (active : Active st a) :
    (st.payload a).target = owner a := by
  obtain ⟨-, added, -, exact, own⟩ := owned.tree
  rw [← own a, Timer.target, Timer.target, exact.cb a active, exact.data a active]

/-- The timer may be taken out of the tree. -/
def Deletable (st : St α (Timer κ δ)) (a : α) : Prop := Active st a → SingleChild st a

variable [DecidableEq α]

/-- An object is allocated, written or freed while its timer is not active. -/
theorem Owned.write {allocated' : α → Prop} (owned : Owned owner st allocated)
    (inactive : ¬ Active st a) (node : Option (Rbnode α)) {timer : Timer κ δ}
    (idle : timer.isActive = false) (here : allocated' a ↔ node.isSome = true)
    (others : ∀ b, b ≠ a → (allocated' b ↔ allocated b)) :
    Owned owner { setTimer st a timer with node := Function.update st.node a node } allocated' := by
  obtain ⟨⟨t, added, inv, exact, own⟩, memory⟩ := owned
  obtain ⟨inv', exact'⟩ := Exact.write inv exact inactive node timer idle
  refine ⟨⟨t, added, inv', exact', own⟩, fun b => ?_⟩
  by_cases equal : b = a
  · subst equal
    simp only [Function.update_self, here]
    exact Option.isSome_iff_exists.symm
  · simp only [Function.update_of_ne equal, memory b, others b equal]

theorem Owned.add (owned : Owned owner st allocated) (live : allocated a) (inactive : ¬ Active st a)
    (mine : (st.payload a).target = owner a) (now : UInt64) :
    ∃ st', Returns (addTimer · st now a) (.ok, st') ∧ Owned owner st' allocated := by
  obtain ⟨⟨t, added, inv, exact, own⟩, memory⟩ := owned
  obtain ⟨n, found⟩ := (memory a).mpr live
  have idle := isActive_of_not_active found inactive
  have fresh : a ∉ t.labels := fun member => inactive ((((exact_iff inv).mp exact).1 a).mp member)
  obtain ⟨st', t', ended, inv', exact'⟩ := Exact.add inv exact found inactive now
  obtain ⟨st₁, t₁, lower, upper, ended₁, inv₁, split, labels, -, frame⟩ :=
    addTimer_inv inv now found idle fresh
  cases ended.unique ended₁
  refine ⟨st', ended, ⟨t', _, inv', exact', fun b => ?_⟩, fun b => ?_⟩
  · by_cases equal : b = a
    · subst equal
      rw [Function.update_self, updateTrigger_target, mine]
    · rw [Function.update_of_ne equal]
      exact own b
  · rw [← memory b]
    -- no timer is allocated or freed
    apply allocated_iff inv₁ (frame b)
    intro member
    simp only [labels, List.mem_append, List.mem_cons] at member
    by_cases equal : b = a
    · subst equal
      exact ⟨n, found⟩
    · apply inv.focus.tree.allocated
      rw [split, List.mem_append]
      exact member.imp_right fun upper => upper.resolve_left equal

theorem delTimer_inactive (live : ∃ n, st.node a = some n) (inactive : ¬ Active st a) :
    Returns (delTimer · st a) (.err, st) := by
  obtain ⟨n, found⟩ := live
  have idle := isActive_of_not_active found inactive
  have start : (delTimer · st a) = fun _ => .ok (.err, st) := by
    funext fuel
    rw [delTimer, timerAt_ok found, ok_bind, if_neg (by simp [idle])]
    rfl
  rw [start]
  exact .const _

/-- A timer whose node has at most one child is taken out, and its fields stay. -/
theorem Owned.del (owned : Owned owner st allocated) (live : allocated a)
    (deletable : Deletable st a) :
    ∃ status st', Returns (delTimer · st a) (status, st') ∧ Owned owner st' allocated ∧
      ¬ Active st' a ∧
      (st'.payload a).target = (st.payload a).target := by
  by_cases active : Active st a
  · obtain ⟨⟨t, added, inv, exact, own⟩, memory⟩ := owned
    obtain ⟨st', t', ended, inv', exact'⟩ := Exact.del inv exact active
    have member : a ∈ t.labels := (((exact_iff inv).mp exact).1 a).mpr active
    obtain ⟨st₁, t₁, lower, upper, n, ended₁, inv₁, frame, found, outcome⟩ :=
      delTimer_inv inv active.choose_spec.2 member
    cases ended.unique ended₁
    -- with at most one child the node that goes is the timer's own
    obtain ⟨n', found', single⟩ := deletable active
    cases found.symm.trans found'
    rw [if_pos single] at outcome
    obtain ⟨before, after, payload⟩ := outcome
    refine ⟨_, st', ended,
      ⟨⟨t', added, inv', exact'.mpr ⟨n, found, single⟩, own⟩, fun b => ?_⟩, ?_, ?_⟩
    · rw [← memory b]
      apply allocated_iff inv₁ (frame b)
      intro inTree
      apply inv.focus.tree.allocated
      simp only [after, before, List.mem_append, List.mem_cons] at inTree ⊢
      exact inTree.imp_right .inr
    · apply inactive_of
      rw [payload, Function.update_self, isActive_clearActive]
    · rw [payload, Function.update_self]
      simp only [Timer.target, Timer.clearActive]
  · exact ⟨.err, st, delTimer_inactive ((owned.memory a).mpr live) active, owned, active, rfl⟩

end Cask.Event
