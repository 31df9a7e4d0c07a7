import Cask.Common
import Cask.RbTree.RedBlack

/-! # Timers

The timer part of `event.c`: a timer is linked into the red-black tree of its event base
while it is active, ordered by the time at which it fires.  The node of a timer is the first
member of `struct timer`, so the payload that `rbtree_delete` moves is all the rest of the
timer, its flags included.

`TimerRun` are the histories of an event base: `add_timer` on inactive timers, `del_timer`
on active ones, and the owner of a timer writing or freeing it while it is inactive.  Each
history records the fields every timer had when it was added.
-/

namespace Cask.Event

open RbTree Fuel

/-! ## Data -/

/-- `struct timer` without its node; `κ` are the callbacks and `δ` the data pointers. -/
structure Timer (κ δ : Type) where
  trigger : UInt64
  interval : UInt32
  flags : BitVec 32
  cb : κ
  data : δ

def timerFlagActive : BitVec 32 := 1#32 <<< 0

def timerFlagOneshot : BitVec 32 := 1#32 <<< 1

variable {α κ δ : Type}

/-- `timer->flags & TIMER_FLAG_ACTIVE` -/
def Timer.isActive (t : Timer κ δ) : Bool := t.flags &&& timerFlagActive != 0

/-- `timer->flags |= TIMER_FLAG_ACTIVE` -/
def Timer.setActive (t : Timer κ δ) : Timer κ δ := { t with flags := t.flags ||| timerFlagActive }

/-- `timer->flags &= ~TIMER_FLAG_ACTIVE` -/
def Timer.clearActive (t : Timer κ δ) : Timer κ δ :=
  { t with flags := t.flags &&& ~~~ timerFlagActive }

/-- `make_timer(interval, mode, cb, data)`. -/
def makeTimer (interval : UInt32) (mode : BitVec 32) (cb : κ) (data : δ) : Timer κ δ :=
  ⟨0, interval, mode, cb, data⟩

/-- `update_trigger(t)` at the time `now`, in nanoseconds. -/
def updateTrigger (now : UInt64) (t : Timer κ δ) : Timer κ δ :=
  { t with trigger := now + t.interval.toUInt64 * 1000000 }

def timerCmp (a b : Timer κ δ) : Int :=
  if a.trigger < b.trigger then -1 else if a.trigger = b.trigger then 0 else 1

/-! ## Operations -/

section Operations

/-- The timer at an address; an address without an object faults. -/
def timerAt (st : St α (Timer κ δ)) (a : α) : Except Fault (Timer κ δ) := do
  let _ ← st.read (.node a)
  return st.payload a

variable [DecidableEq α]

def setTimer (st : St α (Timer κ δ)) (a : α) (t : Timer κ δ) : St α (Timer κ δ) :=
  { st with payload := Function.update st.payload a t }

/-- `add_timer(base, timer)` when `get_time()` returns `now`. -/
def addTimer (fuel : Nat) (st : St α (Timer κ δ)) (now : UInt64) (a : α) :
    Except Fault (Status × St α (Timer κ δ)) := do
  let timer ← timerAt st a
  if timer.isActive then return (.err, st)
  let timer := (updateTrigger now timer).setActive
  let st ← rbtreeInsert timerCmp fuel (setTimer st a timer) a
  return (.ok, st)

/-- `del_timer(base, timer)`. -/
def delTimer (fuel : Nat) (st : St α (Timer κ δ)) (a : α) :
    Except Fault (Status × St α (Timer κ δ)) :=
  do
  let timer ← timerAt st a
  if timer.isActive then
    let st ← rbtreeDelete fuel st a
    let timer ← timerAt st a
    return (.ok, setTimer st a timer.clearActive)
  else return (.err, st)

end Operations

/-! ## The flag and the order -/

theorem isActive_setActive (t : Timer κ δ) : t.setActive.isActive = true := by
  simp only [Timer.isActive, Timer.setActive, timerFlagActive, bne_iff_ne, ne_eq]
  intro zero
  have bit := congrArg (BitVec.getLsbD · 0) zero
  simp at bit

theorem isActive_clearActive (t : Timer κ δ) : t.clearActive.isActive = false := by
  have zero : t.flags &&& ~~~ timerFlagActive &&& timerFlagActive = 0 := by
    rw [BitVec.and_assoc, BitVec.not_and_self]
    exact BitVec.and_zero
  simp [Timer.isActive, Timer.clearActive, zero]

-- not by `rfl`, which compares the timers first and computes the new trigger for it
theorem flags_updateTrigger (now : UInt64) (t : Timer κ δ) : (updateTrigger now t).flags = t.flags := by
  rw [updateTrigger]

theorem isActive_updateTrigger (now : UInt64) (t : Timer κ δ) :
    (updateTrigger now t).isActive = t.isActive :=
  congrArg (· &&& timerFlagActive != 0) (flags_updateTrigger now t)

theorem timerCmp_le {a b : Timer κ δ} : timerCmp a b ≤ 0 ↔ a.trigger ≤ b.trigger := by
  unfold timerCmp
  split
  · next lt => simp [UInt64.le_of_lt lt]
  · next ge =>
    split
    · next eq => simp [eq]
    · next ne =>
      simp only [Int.reduceLE, false_iff, UInt64.not_le]
      exact UInt64.lt_of_le_of_ne (UInt64.not_lt.mp ge) (Ne.symm ne)

theorem timerCmp_preorder : TotalPreorder (timerCmp (κ := κ) (δ := δ)) where
  total a b := by
    simp only [timerCmp_le]
    exact UInt64.le_total _ _
  trans a b c := by
    simp only [timerCmp_le]
    exact UInt64.le_trans

/-! ## Operations on the tree of timers -/

section Specs

variable {st : St α (Timer κ δ)} {t : ColorTree.Bintree α} {a : α} {n : Rbnode α}

theorem timerAt_ok (found : st.node a = some n) : timerAt st a = .ok (st.payload a) := by
  simp only [timerAt, St.read, found]
  rfl

variable [DecidableEq α]

@[simp] theorem setTimer_payload (timer : Timer κ δ) :
    (setTimer st a timer).payload = Function.update st.payload a timer := rfl

/-- Nothing in the tree depends on the flags. -/
theorem setTimer_inv {timer : Timer κ δ} (inv : Inv timerCmp st t)
    (same : timer.trigger = (st.payload a).trigger) : Inv timerCmp (setTimer st a timer) t := by
  refine inv.repayload _ ?_
  have trigger : ∀ b, ((setTimer st a timer).payload b).trigger = (st.payload b).trigger := by
    intro b
    by_cases equal : b = a
    · rw [equal, setTimer_payload, Function.update_self, same]
    · rw [setTimer_payload, Function.update_of_ne equal]
  refine List.Pairwise.imp (fun {b c} le => ?_) inv.sorted
  rw [timerCmp_le] at le ⊢
  exact (trigger b).symm ▸ (trigger c).symm ▸ le

theorem addTimer_inv (inv : Inv timerCmp st t) (now : UInt64) (found : st.node a = some n)
    (inactive : (st.payload a).isActive = false) (fresh : a ∉ t.labels) :
    ∃ st' t' lower upper, Returns (addTimer · st now a) (.ok, st') ∧ Inv timerCmp st' t' ∧
      t.labels = lower ++ upper ∧ t'.labels = lower ++ a :: upper ∧
      st'.payload = Function.update st.payload a (updateTrigger now (st.payload a)).setActive ∧
      ∀ b, b ∉ t'.labels → st'.node b = st.node b := by
  have prepared : Inv timerCmp (setTimer st a (updateTrigger now (st.payload a)).setActive) t := by
    refine inv.sameLinks ⟨rfl, rfl, fun _ _ => rfl, fun b linked => ?_⟩
    refine Function.update_of_ne ?_ ..
    rintro rfl
    exact fresh ((inv.focus.linked_iff _).mp linked)
  obtain ⟨st', t', lower, upper, ended, inv', split, labels, -, -, keeps⟩ :=
    prepared.insert timerCmp_preorder (x := a) (n := n) found fresh
  refine ⟨st', t', lower, upper, ?_, inv', split, labels, keeps.payload, keeps.frame⟩
  have start : (addTimer · st now a) = fun fuel =>
      (rbtreeInsert timerCmp fuel (setTimer st a (updateTrigger now (st.payload a)).setActive) a).bind fun st => .ok (.ok, st) := by
    funext fuel
    rw [addTimer, timerAt_ok found, ok_bind, if_neg (by simp [inactive])]
    rfl
  rw [start]
  exact ended.bind (.const _)

theorem delTimer_inv (inv : Inv timerCmp st t) (active : (st.payload a).isActive = true)
    (member : a ∈ t.labels) :
    ∃ st' t' lower upper n, Returns (delTimer · st a) (.ok, st') ∧ Inv timerCmp st' t' ∧
      (∀ b, b ∉ t'.labels → st'.node b = st.node b) ∧ st.node a = some n ∧
      if n.left = .rbnil ∨ n.right = .rbnil then
        t.labels = lower ++ a :: upper ∧ t'.labels = lower ++ upper ∧
          st'.payload = Function.update st.payload a (st.payload a).clearActive
      else
        ∃ y, t.labels = lower ++ a :: y :: upper ∧ t'.labels = lower ++ a :: upper ∧
          st'.payload = Function.update st.payload a (st.payload y).clearActive := by
  obtain ⟨st₁, t', lower, upper, n, ended, inv', frame, found, outcome⟩ := inv.delete member
  -- the node of the timer is there also after it was unlinked
  have still : ∃ n', st₁.node a = some n' := by
    by_cases linked : a ∈ t'.labels
    · exact inv'.focus.tree.allocated linked
    · exact ⟨n, (frame a linked).trans found⟩
  obtain ⟨n', still⟩ := still
  refine ⟨setTimer st₁ a (st₁.payload a).clearActive, t', lower, upper, n, ?_,
    setTimer_inv inv' rfl, frame, found, ?_⟩
  · have start : (delTimer · st a) = fun fuel => (rbtreeDelete fuel st a).bind fun st₂ =>
        (timerAt st₂ a).bind fun timer => .ok (.ok, setTimer st₂ a timer.clearActive) := by
      funext fuel
      rw [delTimer, timerAt_ok found, ok_bind, if_pos active]
      rfl
    rw [start]
    refine ended.bind ?_
    rw [timerAt_ok still]
    exact .const _
  · split at outcome
    · next single =>
      obtain ⟨before, after, payload⟩ := outcome
      rw [if_pos single]
      exact ⟨before, after, by rw [setTimer, payload]⟩
    · next double =>
      obtain ⟨y, before, after, payload⟩ := outcome
      rw [if_neg double]
      refine ⟨y, before, after, ?_⟩
      simp only [setTimer, payload, Function.update_idem, Function.update_self]

end Specs

/-! ## Histories -/

section Histories

/-- The object at `a` is a timer with its active flag set. -/
def Active (st : St α (Timer κ δ)) (a : α) : Prop :=
  ∃ n, st.node a = some n ∧ (st.payload a).isActive = true

theorem inactive_of {st : St α (Timer κ δ)} {a : α} (idle : (st.payload a).isActive = false) :
    ¬ Active st a := by
  rintro ⟨_, _, set⟩
  rw [idle] at set
  cases set

theorem isActive_of_not_active {st : St α (Timer κ δ)} {a : α} {n : Rbnode α}
    (found : st.node a = some n) (inactive : ¬ Active st a) : (st.payload a).isActive = false := by
  by_contra set
  exact inactive ⟨n, found, by simpa using set⟩

/-- The node of the timer has at most one child. -/
def SingleChild (st : St α (Timer κ δ)) (a : α) : Prop :=
  ∃ n, st.node a = some n ∧ (n.left = .rbnil ∨ n.right = .rbnil)

/-- The tree holds exactly the active timers, and these are as they were added. -/
structure Exact (st : St α (Timer κ δ)) (added : α → Timer κ δ) : Prop where
  linked : ∀ a, Linked st a ↔ Active st a
  trigger : ∀ a, Active st a → (st.payload a).trigger = (added a).trigger
  interval : ∀ a, Active st a → (st.payload a).interval = (added a).interval
  cb : ∀ a, Active st a → (st.payload a).cb = (added a).cb
  data : ∀ a, Active st a → (st.payload a).data = (added a).data

variable {st st' : St α (Timer κ δ)} {added : α → Timer κ δ} {t : ColorTree.Bintree α} {a : α}

/-- `Exact` in terms of the tree: the linked addresses are its labels. -/
theorem exact_iff {cmp : Timer κ δ → Timer κ δ → Int} (inv : Inv cmp st t) :
    Exact st added ↔ (∀ b, b ∈ t.labels ↔ Active st b) ∧ ∀ b, Active st b →
      (st.payload b).trigger = (added b).trigger ∧ (st.payload b).interval = (added b).interval ∧
      (st.payload b).cb = (added b).cb ∧ (st.payload b).data = (added b).data := by
  constructor
  · rintro ⟨linked, trigger, interval, cb, data⟩
    exact ⟨fun b => (inv.focus.linked_iff b).symm.trans (linked b),
      fun b active => ⟨trigger b active, interval b active, cb b active, data b active⟩⟩
  · rintro ⟨linked, same⟩
    exact ⟨fun b => (inv.focus.linked_iff b).trans (linked b), fun b active => (same b active).1,
      fun b active => (same b active).2.1, fun b active => (same b active).2.2.1,
      fun b active => (same b active).2.2.2⟩

/-- Away from the timer that is written, activity only depends on what is kept. -/
theorem active_congr {b : α} (node : st'.node b = st.node b)
    (payload : st'.payload b = st.payload b) : Active st' b ↔ Active st b := by
  rw [Active, Active, node, payload]

variable [DecidableEq α]

/-- The histories of an event base in which every deleted timer meets `allowed`, with the timer
as it was when it was last added. -/
inductive TimerRun (allowed : St α (Timer κ δ) → α → Prop) : St α (Timer κ δ) →
    (α → Timer κ δ) → Prop where
  | create (node : α → Option (Rbnode α)) (payload : α → Timer κ δ)
      (inactive : ∀ a, ¬ Active (rbtreeInit node payload) a) : TimerRun allowed (rbtreeInit node payload) payload
  | write {st : St α (Timer κ δ)} {added : α → Timer κ δ} {a : α} (run : TimerRun allowed st added)
      (inactive : ¬ Active st a) (node : Option (Rbnode α)) (timer : Timer κ δ) (idle : timer.isActive = false) :
      TimerRun allowed { setTimer st a timer with node := Function.update st.node a node } added
  | add {st st' : St α (Timer κ δ)} {added : α → Timer κ δ} {a : α} {n : Rbnode α} (run : TimerRun allowed st added)
      (found : st.node a = some n) (inactive : ¬ Active st a) (now : UInt64)
      (ended : Returns (addTimer · st now a) (.ok, st')) :
      TimerRun allowed st' (Function.update added a (updateTrigger now (st.payload a)))
  | del {st st' : St α (Timer κ δ)} {added : α → Timer κ δ} {a : α} (run : TimerRun allowed st added)
      (active : Active st a) (meets : allowed st a) (ended : Returns (delTimer · st a) (.ok, st')) :
      TimerRun allowed st' added

/-- A write to an inactive timer that leaves it inactive concerns neither the linked nor the active
timers. -/
theorem write_active (inv : Inv timerCmp st t) (fresh : a ∉ t.labels) (inactive : ¬ Active st a)
    (node : Option (Rbnode α)) (timer : Timer κ δ) (idle : timer.isActive = false) :
    Inv timerCmp { setTimer st a timer with node := Function.update st.node a node } t ∧
      ∀ b, (Active { setTimer st a timer with node := Function.update st.node a node } b ↔ Active st b) ∧
        (Active st b → b ≠ a) := by
  have unlinked : ∀ b, Linked st b → b ≠ a := by
    rintro b linked rfl
    exact fresh ((inv.focus.linked_iff b).mp linked)
  refine ⟨inv.sameLinks ⟨rfl, rfl, fun b linked => Function.update_of_ne (unlinked b linked) ..,
      fun b linked => Function.update_of_ne (unlinked b linked) ..⟩, fun b => ⟨?_, ?_⟩⟩
  · by_cases equal : b = a
    · subst equal
      refine iff_of_false ?_ inactive
      rintro ⟨n, _, active⟩
      rw [setTimer_payload, Function.update_self, idle] at active
      cases active
    · exact active_congr (Function.update_of_ne equal ..) (Function.update_of_ne equal ..)
  · rintro active rfl
    exact inactive active

theorem Exact.write (inv : Inv timerCmp st t) (exact : Exact st added) (inactive : ¬ Active st a)
    (node : Option (Rbnode α)) (timer : Timer κ δ) (idle : timer.isActive = false) :
    Inv timerCmp { setTimer st a timer with node := Function.update st.node a node } t ∧
      Exact { setTimer st a timer with node := Function.update st.node a node } added := by
  obtain ⟨linked, same⟩ := (exact_iff inv).mp exact
  obtain ⟨inv', active⟩ := write_active inv (mt (linked a).mp inactive) inactive node timer idle
  refine ⟨inv', (exact_iff inv').mpr ⟨fun b => ?_, fun b still => ?_⟩⟩
  · rw [linked b, (active b).1]
  · have before := (active b).1.mp still
    rw [setTimer_payload, Function.update_of_ne ((active b).2 before)]
    exact same b before

/-- An operation that frames the memory outside the tree neither allocates nor frees a timer. -/
theorem allocated_iff {cmp : Timer κ δ → Timer κ δ → Int} {t' : ColorTree.Bintree α} {b : α}
    (inv' : Inv cmp st' t') (frame : b ∉ t'.labels → st'.node b = st.node b)
    (before : b ∈ t'.labels → ∃ n, st.node b = some n) :
    (∃ n, st'.node b = some n) ↔ ∃ n, st.node b = some n := by
  by_cases member : b ∈ t'.labels
  · exact iff_of_true (inv'.focus.tree.allocated member) (before member)
  · rw [frame member]

/-- `add_timer` on an unlinked timer: the timer joins the linked and the active ones. -/
theorem addTimer_active {n : Rbnode α} (inv : Inv timerCmp st t) (now : UInt64)
    (found : st.node a = some n) (idle : (st.payload a).isActive = false) (fresh : a ∉ t.labels) :
    ∃ st' t', Returns (addTimer · st now a) (.ok, st') ∧ Inv timerCmp st' t' ∧
      (∀ b, b ∈ t'.labels ↔ b = a ∨ b ∈ t.labels) ∧ (∀ b, Active st' b ↔ b = a ∨ Active st b) ∧
      st'.payload = Function.update st.payload a (updateTrigger now (st.payload a)).setActive := by
  obtain ⟨st', t', lower, upper, ended, inv', split, labels, payload, frame⟩ :=
    addTimer_inv inv now found idle fresh
  have inTree : ∀ b, b ∈ t'.labels ↔ b = a ∨ b ∈ t.labels := by
    intro b
    simp only [labels, split, List.mem_append, List.mem_cons]
    tauto
  refine ⟨st', t', ended, inv', inTree, fun b => ?_, payload⟩
  by_cases equal : b = a
  · subst equal
    obtain ⟨n', allocated⟩ := inv'.focus.tree.allocated ((inTree b).mpr (.inl rfl))
    refine iff_of_true ⟨n', allocated, ?_⟩ (.inl rfl)
    rw [payload, Function.update_self, isActive_setActive]
  · have memory := allocated_iff inv' (frame b) fun member =>
      inv.focus.tree.allocated (((inTree b).mp member).resolve_left equal)
    simp only [Active, exists_and_right, memory, payload, Function.update_of_ne equal, equal, false_or]

theorem Exact.add {n : Rbnode α} (inv : Inv timerCmp st t) (exact : Exact st added)
    (found : st.node a = some n) (inactive : ¬ Active st a) (now : UInt64) :
    ∃ st' t', Returns (addTimer · st now a) (.ok, st') ∧ Inv timerCmp st' t' ∧
      Exact st' (Function.update added a (updateTrigger now (st.payload a))) := by
  obtain ⟨linked, same⟩ := (exact_iff inv).mp exact
  have idle := isActive_of_not_active found inactive
  obtain ⟨st', t', ended, inv', inTree, nowActive, payload⟩ :=
    addTimer_active inv now found idle (mt (linked a).mp inactive)
  refine ⟨st', t', ended, inv', (exact_iff inv').mpr ⟨fun b => ?_, fun b active => ?_⟩⟩
  · rw [inTree b, nowActive b, linked b]
  · by_cases equal : b = a
    · subst equal
      simp only [payload, Function.update_self, Timer.setActive, and_self]
    · rw [payload, Function.update_of_ne equal, Function.update_of_ne equal]
      exact same b (((nowActive b).mp active).resolve_left equal)

/-- `del_timer` on a timer with at most one child: the timer leaves the linked and the active ones. -/
theorem delTimer_active {n : Rbnode α} (inv : Inv timerCmp st t)
    (active : (st.payload a).isActive = true) (member : a ∈ t.labels) (found : st.node a = some n)
    (single : n.left = .rbnil ∨ n.right = .rbnil) :
    ∃ st' t', Returns (delTimer · st a) (.ok, st') ∧ Inv timerCmp st' t' ∧
      (∀ b, b ∈ t'.labels ↔ b ≠ a ∧ b ∈ t.labels) ∧ t'.labels.length < t.labels.length ∧
      (∀ b, Active st' b ↔ b ≠ a ∧ Active st b) ∧
      st'.payload = Function.update st.payload a (st.payload a).clearActive := by
  obtain ⟨st', t', lower, upper, n', ended, inv', frame, found', outcome⟩ :=
    delTimer_inv inv active member
  cases found.symm.trans found'
  rw [if_pos single] at outcome
  obtain ⟨before, after, payload⟩ := outcome
  have nodup : t.labels.Nodup := inv.focus.nodup
  -- no address is linked twice
  have inTree : ∀ b, b ∈ t'.labels ↔ b ≠ a ∧ b ∈ t.labels := by
    intro b
    rw [before] at nodup
    simp only [List.nodup_append, List.nodup_cons] at nodup
    simp only [before, after, List.mem_append, List.mem_cons]
    grind
  refine ⟨st', t', ended, inv', inTree, by simp [before, after], fun b => ?_, payload⟩
  by_cases equal : b = a
  · subst equal
    refine iff_of_false ?_ fun still => still.1 rfl
    rintro ⟨n', _, set⟩
    rw [payload, Function.update_self, isActive_clearActive] at set
    cases set
  · have memory :=
      allocated_iff inv' (frame b) fun member => inv.focus.tree.allocated ((inTree b).mp member).2
    simp only [Active, exists_and_right, memory, payload, Function.update_of_ne equal, ne_eq, equal,
      not_false_eq_true, true_and]

/-- A timer with two children stays linked when it is deleted, with its flag cleared. -/
theorem not_exact_of_double {n : Rbnode α} (added : α → Timer κ δ) (inv : Inv timerCmp st t)
    (active : (st.payload a).isActive = true) (member : a ∈ t.labels) (found : st.node a = some n)
    (double : ¬ (n.left = .rbnil ∨ n.right = .rbnil)) :
    ∃ st' t', Returns (delTimer · st a) (.ok, st') ∧ Inv timerCmp st' t' ∧ ¬ Exact st' added := by
  obtain ⟨st', t', lower, upper, n', ended, inv', -, found', outcome⟩ :=
    delTimer_inv inv active member
  cases found.symm.trans found'
  rw [if_neg double] at outcome
  obtain ⟨y, -, after, payload⟩ := outcome
  refine ⟨st', t', ended, inv', fun exact' => ?_⟩
  obtain ⟨n', -, set⟩ : Active st' a := (((exact_iff inv').mp exact').1 a).mp (by simp [after])
  rw [payload, Function.update_self, isActive_clearActive] at set
  cases set

/-- `del_timer` keeps the tree exact precisely when the node that it takes out is the timer's own. -/
theorem Exact.del (inv : Inv timerCmp st t) (exact : Exact st added) (active : Active st a) :
    ∃ st' t', Returns (delTimer · st a) (.ok, st') ∧ Inv timerCmp st' t' ∧
      (Exact st' added ↔ SingleChild st a) := by
  obtain ⟨linked, same⟩ := (exact_iff inv).mp exact
  obtain ⟨n, found, set⟩ := active
  have member : a ∈ t.labels := (linked a).mpr ⟨n, found, set⟩
  by_cases single : n.left = .rbnil ∨ n.right = .rbnil
  · obtain ⟨st', t', ended, inv', inTree, -, stillActive, payload⟩ :=
      delTimer_active inv set member found single
    refine ⟨st', t', ended, inv', iff_of_true ((exact_iff inv').mpr ⟨fun b => ?_, fun b still => ?_⟩)
      ⟨n, found, single⟩⟩
    · rw [inTree b, stillActive b, linked b]
    · obtain ⟨differ, before⟩ := (stillActive b).mp still
      rw [payload, Function.update_of_ne differ]
      exact same b before
  · obtain ⟨st', t', ended, inv', inexact⟩ :=
      not_exact_of_double added inv set member found single
    refine ⟨st', t', ended, inv', iff_of_false inexact fun ⟨n', found', single'⟩ => ?_⟩
    cases found.symm.trans found'
    exact single single'

theorem TimerRun.inv (run : TimerRun SingleChild st added) :
    ∃ t, Inv timerCmp st t ∧ Exact st added := by
  induction run with
  | create node payload inactive =>
    have inv : Inv timerCmp (rbtreeInit node payload) .nil := inv_init node payload
    refine ⟨.nil, inv,
      (exact_iff inv).mpr ⟨fun b => ?_, fun b active => absurd active (inactive b)⟩⟩
    exact iff_of_false (by simp [ColorTree.Bintree.labels]) (inactive b)
  | write _ inactive node timer idle ih =>
    obtain ⟨t, inv, exact⟩ := ih
    exact ⟨t, Exact.write inv exact inactive node timer idle⟩
  | add _ found inactive now ended ih =>
    obtain ⟨t, inv, exact⟩ := ih
    obtain ⟨st₁, t₁, ended₁, inv₁, exact₁⟩ := Exact.add inv exact found inactive now
    cases ended.unique ended₁
    exact ⟨t₁, inv₁, exact₁⟩
  | del _ active single ended ih =>
    obtain ⟨t, inv, exact⟩ := ih
    obtain ⟨st₁, t₁, ended₁, inv₁, exact₁⟩ := Exact.del inv exact active
    cases ended.unique ended₁
    exact ⟨t₁, inv₁, exact₁.mpr single⟩

/-- While only timers with at most one child are deleted the tree holds exactly the active timers,
as they were added; the first deletion of a timer with two children ends this. -/
theorem timers_exact (run : TimerRun SingleChild st added) :
    Exact st added ∧ ∀ a, Active st a →
      ∃ st', Returns (delTimer · st a) (.ok, st') ∧ (Exact st' added ↔ SingleChild st a) := by
  obtain ⟨t, inv, exact⟩ := run.inv
  refine ⟨exact, fun a active => ?_⟩
  obtain ⟨st', t', ended, _, result⟩ := Exact.del inv exact active
  exact ⟨st', ended, result⟩

/-- An event base without active timers; the timers are numbered. -/
def idleBase : St Nat (Timer Unit Unit) :=
  rbtreeInit (fun _ => some ⟨.black, .null, .null, .null⟩)
    fun _ => makeTimer 0 timerFlagOneshot () ()

/-- `add_timer` on timer `a` at the time `a`. -/
def addNumbered (st : St Nat (Timer Unit Unit)) (a : Nat) : St Nat (Timer Unit Unit) :=
  ((addTimer 9 st (.ofNat a) a).toOption.getD (.err, st)).2

def delNumbered (st : St Nat (Timer Unit Unit)) (a : Nat) : St Nat (Timer Unit Unit) :=
  ((delTimer 9 st a).toOption.getD (.err, st)).2

/-- Timer 2 is added, then timer 1. -/
def twoTimers : St Nat (Timer Unit Unit) := addNumbered (addNumbered idleBase 2) 1

/-- Timer 3 is added too; timer 2 is at the root with two children. -/
def threeTimers : St Nat (Timer Unit Unit) := addNumbered twoTimers 3

theorem twoTimers_run (allowed : St Nat (Timer Unit Unit) → Nat → Prop) :
    ∃ added, TimerRun allowed twoTimers added := by
  have idle : (makeTimer 0 timerFlagOneshot () () : Timer Unit Unit).isActive = false := by decide
  have start : TimerRun allowed idleBase idleBase.payload := .create _ _ fun a => inactive_of idle
  have first : TimerRun allowed (addNumbered idleBase 2) _ :=
    .add (a := 2) start rfl (inactive_of idle) 2 (.of_add 9 fun _ => rfl)
  have found : (addNumbered idleBase 2).node 1 = some ⟨.black, .null, .null, .null⟩ := rfl
  have idle' : ((addNumbered idleBase 2).payload 1).isActive = false := rfl
  have second : TimerRun allowed twoTimers _ :=
    .add (a := 1) first found (inactive_of idle') 1 (.of_add 9 fun _ => rfl)
  exact ⟨_, second⟩

theorem twoTimers_root : twoTimers.node 2 = some ⟨.black, .node 1, .rbnil, .null⟩ := rfl

theorem threeTimers_root : threeTimers.node 2 = some ⟨.black, .node 1, .node 3, .null⟩ := rfl

/-- Timer 2, whose node has one child, is deleted. -/
theorem timers_exact_two : ∃ added, TimerRun SingleChild (delNumbered twoTimers 2) added ∧
    Exact (delNumbered twoTimers 2) added := by
  obtain ⟨added, run⟩ := twoTimers_run SingleChild
  have active : (twoTimers.payload 2).isActive = true := rfl
  have last : TimerRun SingleChild (delNumbered twoTimers 2) added :=
    .del (a := 2) run ⟨_, twoTimers_root, active⟩ ⟨_, twoTimers_root, .inr rfl⟩ (.of_add 9 fun _ => rfl)
  exact ⟨added, last, (timers_exact last).1⟩

/-- The timer at the root is deleted while it has two children.  Its node stays linked, and inactive. -/
theorem not_exact_three : ¬ ∀ (st : St Nat (Timer Unit Unit)) (added : Nat → Timer Unit Unit),
    TimerRun (fun _ _ => True) st added → Exact st added := by
  intro all
  obtain ⟨added, run⟩ := twoTimers_run fun _ _ => True
  have found : twoTimers.node 3 = some ⟨.black, .null, .null, .null⟩ := rfl
  have idle : (twoTimers.payload 3).isActive = false := rfl
  have third : TimerRun (fun _ _ => True) threeTimers _ :=
    .add (a := 3) run found (inactive_of idle) 3 (.of_add 9 fun _ => rfl)
  have active : (threeTimers.payload 2).isActive = true := rfl
  have last : TimerRun (fun _ _ => True) (delNumbered threeTimers 2) _ :=
    .del (a := 2) third ⟨_, threeTimers_root, active⟩ trivial (.of_add 9 fun _ => rfl)
  have linked : Linked (delNumbered threeTimers 2) 2 :=
    .root (show (delNumbered threeTimers 2).root = .node 2 from rfl)
  have cleared : ((delNumbered threeTimers 2).payload 2).isActive = false := rfl
  exact inactive_of cleared (((all _ _ last).linked 2).mp linked)

end Histories

end Cask.Event
