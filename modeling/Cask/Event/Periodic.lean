import Cask.Event.RunTimers

/-! # Periodic timers

A periodic timer that fires gets a new trigger and stays where it is in the tree.  Its node
is the leftmost one, so the order survives exactly when the timer right behind it fires no
earlier than the new trigger.  Otherwise the leftmost timer is no longer the first to fire,
and `run_timers` stops at it although timers behind it are due.

The clock is strictly increasing, so the new trigger is later than the time at which the call
was entered, unless it wraps around; a call therefore re-arms at most one timer.
-/

namespace Cask.Event

open RbTree Fuel

variable {α κ δ : Type}

/-! ## The condition -/

section Condition

variable (clock : Nat → UInt64) (st : St α (Timer κ δ)) (addrs : List α)

/-- The timers from the first one on that the call does not take out. -/
def behindDue : List α :=
  addrs.dropWhile fun a => dueAt (clock 0) st a && (st.payload a).isOneshot

/-- The call re-arms the timer `p`, which has `rest` behind it. -/
def Rearms (p : α) (rest : List α) : Prop :=
  behindDue clock st addrs = p :: rest ∧ dueAt (clock 0) st p = true

/-- The trigger that `update_trigger` gives to the timer at `p` in this call. -/
def rearmed (p : α) : UInt64 := (updateTrigger (clock 1) (st.payload p)).trigger

/-- The clock, if it is read again to re-arm a timer, has gone on. -/
def Ticks : Prop := ∀ p rest, Rearms clock st addrs p rest → clock 0 < clock 1

/-- The trigger of a timer that is re-armed does not wrap around. -/
def NoWrap : Prop :=
  ∀ p rest, Rearms clock st addrs p rest →
    (clock 1).toNat + (st.payload p).interval.toNat * 1000000 < 2 ^ 64

/-- The timer behind one that is re-armed fires no earlier than the new trigger. -/
def RearmFits : Prop :=
  ∀ p rest, Rearms clock st addrs p rest →
    ∀ q ∈ rest.head?, rearmed clock st p ≤ (st.payload q).trigger

end Condition

/-- What `run_timers`, entered at the time `now`, should leave behind: the sequence is
non-decreasing in the trigger, and no linked active timer is due. -/
structure Orderly (now : UInt64) (st : St α (Timer κ δ)) : Prop where
  sorted : ∃ addrs, InOrder st st.root addrs ∧
    addrs.Pairwise fun a b => (st.payload a).trigger ≤ (st.payload b).trigger
  later : ∀ a, Linked st a → Active st a → now < (st.payload a).trigger

section Rearm

variable {clock : Nat → UInt64} {st : St α (Timer κ δ)} {a : α} {rest : List α}

/-- Without a wrap-around the new trigger is later than the start of the call. -/
theorem lt_rearmed (increasing : clock 0 < clock 1)
    (fits : (clock 1).toNat + (st.payload a).interval.toNat * 1000000 < 2 ^ 64) :
    clock 0 < rearmed clock st a := by
  rw [UInt64.lt_iff_toNat_lt] at increasing ⊢
  have million : (1000000 : UInt64).toNat = 1000000 := rfl
  have interval : ((st.payload a).interval.toUInt64 * 1000000).toNat =
      (st.payload a).interval.toNat * 1000000 := by
    rw [UInt64.toNat_mul, UInt32.toNat_toUInt64, million]
    exact Nat.mod_eq_of_lt (by omega)
  rw [rearmed, updateTrigger, UInt64.toNat_add, interval, Nat.mod_eq_of_lt (by omega)]
  omega

/-- A due one-shot timer at the front is passed. -/
theorem behindDue_oneshot (due : dueAt (clock 0) st a = true)
    (oneshot : (st.payload a).isOneshot = true) :
    behindDue clock st (a :: rest) = behindDue clock st rest := by
  simp [behindDue, due, oneshot]

theorem behindDue_other (other : ¬ (dueAt (clock 0) st a = true ∧ (st.payload a).isOneshot = true)) :
    behindDue clock st (a :: rest) = a :: rest := by
  rw [behindDue, List.dropWhile_cons_of_neg (by simpa using other)]

end Rearm

/-! ## The loop -/

section Loop

variable [DecidableEq α] {callback : κ → δ → St α (Timer κ δ) → St α (Timer κ δ)}
  {clock : Nat → UInt64} {s : Running α κ δ} {st : St α (Timer κ δ)} {t : ColorTree.Bintree α}
  {a : α} {addrs rest : List α}

/-- No order at all. -/
def anyOrder (_ _ : Timer κ δ) : Int := 0

omit [DecidableEq α] in
theorem sorted_anyOrder (payload : α → Timer κ δ) (addrs : List α) : Sorted anyOrder payload addrs :=
  List.pairwise_of_forall fun _ _ => Int.le_refl 0

/-- The sequence is sorted and nothing in it is due. -/
def Settled (now : UInt64) (payload : α → Timer κ δ) (addrs : List α) : Prop :=
  Sorted timerCmp payload addrs ∧ ∀ a ∈ addrs, now < (payload a).trigger

omit [DecidableEq α] in
theorem orderly_iff {now : UInt64} (inv : Inv anyOrder st t)
    (active : ∀ a ∈ t.labels, (st.payload a).isActive = true) :
    Orderly now st ↔ Settled now st.payload t.labels := by
  constructor
  · rintro ⟨⟨addrs, walk, sorted⟩, later⟩
    obtain rfl := walk.unique inv.inOrder
    refine ⟨sorted.imp fun le => timerCmp_le.mpr le, fun a member => ?_⟩
    obtain ⟨n, found⟩ := inv.focus.tree.allocated member
    exact later a ((inv.focus.linked_iff a).mpr member) ⟨n, found, active a member⟩
  · rintro ⟨sorted, later⟩
    refine ⟨⟨t.labels, inv.inOrder, sorted.imp fun le => timerCmp_le.mp le⟩, fun a linked _ => ?_⟩
    exact later a ((inv.focus.linked_iff a).mp linked)

omit [DecidableEq α] in
/-- The first timer with a new trigger in front of sorted ones. -/
theorem settled_rearmed_iff {payload payload' : α → Timer κ δ} {now : UInt64}
    (sorted : Sorted timerCmp payload (a :: rest)) (others : ∀ b ∈ rest, payload' b = payload b)
    (later : now < (payload' a).trigger) :
    Settled now payload' (a :: rest) ↔
      ∀ q ∈ rest.head?, (payload' a).trigger ≤ (payload q).trigger := by
  have behind : Sorted timerCmp payload rest := (List.pairwise_cons.mp sorted).2
  constructor
  · rintro ⟨sorted', -⟩ q first
    have member := List.mem_of_mem_head? first
    have le := (List.pairwise_cons.mp sorted').1 q member
    rwa [timerCmp_le, others q member] at le
  · intro next
    -- the rest is sorted, so its first timer bounds the others
    have bound : ∀ b ∈ rest, (payload' a).trigger ≤ (payload' b).trigger := by
      intro b member
      rw [others b member]
      cases rest with
      | nil => cases member
      | cons q rest =>
        have first := next q rfl
        rcases List.mem_cons.mp member with rfl | inRest
        · exact first
        · exact UInt64.le_trans first (timerCmp_le.mp ((List.pairwise_cons.mp behind).1 b inRest))
    refine ⟨List.pairwise_cons.mpr ⟨fun b member => timerCmp_le.mpr (bound b member),
      behind.congr others⟩, fun b member => ?_⟩
    rcases List.mem_cons.mp member with rfl | inRest
    · exact later
    · exact UInt64.lt_of_lt_of_le later (bound b inRest)

/-- The call re-arms the first timer and stops at it. -/
theorem rearm_loop (keeps : ∀ cb data st, SameLinks st (callback cb data st))
    (inv : Inv timerCmp s.base t) (first : t.labels = a :: rest)
    (active : ∀ b ∈ a :: rest, (s.base.payload b).isActive = true)
    (same : ∀ b ∈ a :: rest, s.base.payload b = st.payload b) (readings : s.readings = 1)
    (due : dueAt (clock 0) st a = true) (periodic : (st.payload a).isOneshot = false)
    (later : clock 0 < rearmed clock st a) :
    ∃ final, LoopReturns .fuel (runTimersStep callback clock) s final ∧ Inv anyOrder final.base t ∧
      (∀ b ∈ t.labels, (final.base.payload b).isActive = true) ∧
      (Settled (clock 0) final.base.payload t.labels ↔
        ∀ q ∈ rest.head?, rearmed clock st a ≤ (st.payload q).trigger) := by
  obtain ⟨n, found⟩ := allocated_first inv first
  have self := same a List.mem_cons_self
  have nodup : t.labels.Nodup := inv.focus.nodup
  rw [first, List.nodup_cons] at nodup
  have step := runTimersStep_first callback clock inv first
    (visitTimer_periodic found (by rw [self]; simpa [dueAt] using due) (active a List.mem_cons_self)
      (by rw [self]; exact periodic))
  -- after the callback the payloads are those of the re-arming
  generalize after_eq : callback (s.base.payload a).cb (s.base.payload a).data
    (setTimer s.base a (updateTrigger (clock s.readings) (s.base.payload a))) = after at step
  have inv₁ : Inv anyOrder (setTimer s.base a (updateTrigger (clock s.readings) (s.base.payload a))) t :=
    inv.repayload _ (sorted_anyOrder _ _)
  have kept := keeps (s.base.payload a).cb (s.base.payload a).data
    (setTimer s.base a (updateTrigger (clock s.readings) (s.base.payload a)))
  rw [after_eq] at kept
  have inv₂ : Inv anyOrder after t := inv₁.sameLinks kept
  have payloads : ∀ b ∈ t.labels, after.payload b =
      Function.update s.base.payload a (updateTrigger (clock s.readings) (s.base.payload a)) b :=
    fun b member => kept.payload b ((inv₁.focus.linked_iff b).mpr member)
  have atA : after.payload a = updateTrigger (clock 1) (st.payload a) := by
    rw [payloads a (by simp [first]), Function.update_self, readings, self]
  have others : ∀ b ∈ rest, after.payload b = st.payload b := by
    intro b member
    have differ : b ≠ a := by
      rintro rfl
      exact nodup.1 member
    rw [payloads b (by simp [first, member]), Function.update_of_ne differ]
    exact same b (List.mem_cons_of_mem _ member)
  obtain ⟨n', found'⟩ := allocated_first inv₂ first
  have stops := runTimersStep_first callback clock
    (s := ⟨after, s.readings + 1, s.fired ++ [⟨a, (s.base.payload a).cb, (s.base.payload a).data,
      setTimer s.base a (updateTrigger (clock s.readings) (s.base.payload a))⟩]⟩) inv₂ first
    (visitTimer_later found' (by rw [atA]; exact later))
  refine ⟨_, .again step (.done stops), inv₂, fun b member => ?_, ?_⟩
  · rw [first] at member
    rcases List.mem_cons.mp member with rfl | inRest
    · rw [atA, isActive_updateTrigger, ← self]
      exact active b List.mem_cons_self
    · rw [others b inRest, ← same b member]
      exact active b member
  · have sorted : Sorted timerCmp st.payload (a :: rest) :=
      (first ▸ inv.sorted).congr fun b member => (same b member).symm
    rw [first, settled_rearmed_iff sorted others (by rw [atA]; exact later), atA]
    rfl

theorem periodic_loop (keeps : ∀ cb data st, SameLinks st (callback cb data st))
    (inv : Inv timerCmp s.base t) (labels : t.labels = addrs)
    (active : ∀ a ∈ addrs, (s.base.payload a).isActive = true)
    (same : ∀ a ∈ addrs, s.base.payload a = st.payload a) (readings : s.readings = 1)
    (ticks : Ticks clock st addrs) (noWrap : NoWrap clock st addrs) :
    ∃ final t', LoopReturns .fuel (runTimersStep callback clock) s final ∧
      Inv anyOrder final.base t' ∧
      (∀ a ∈ t'.labels, (final.base.payload a).isActive = true) ∧
      (Settled (clock 0) final.base.payload t'.labels ↔ RearmFits clock st addrs) := by
  -- due one-shot timers at the front are taken out one by one
  induction addrs generalizing s t with
  | nil =>
    refine ⟨s, t, .done (runTimersStep_empty inv labels),
      inv.repayload _ (sorted_anyOrder _ _), labels ▸ active, iff_of_true ?_ ?_⟩
    · rw [labels]
      exact ⟨.nil, fun _ member => nomatch member⟩
    · rintro p rest ⟨behind, -⟩
      cases behind
  | cons a rest ih =>
    have self := same a List.mem_cons_self
    have sorted : Sorted timerCmp st.payload (a :: rest) :=
      (labels ▸ inv.sorted).congr fun b member => (same b member).symm
    cases due : dueAt (clock 0) st a with
    | false =>
      -- the first timer is not due: the call ends
      obtain ⟨n, found⟩ := allocated_first inv labels
      have none := not_due_of_first sorted due
      have later : ∀ b ∈ a :: rest, clock 0 < (s.base.payload b).trigger := by
        intro b member
        rw [same b member]
        simpa [dueAt] using none b member
      have stops := runTimersStep_first callback clock inv labels
        (visitTimer_later found (later a List.mem_cons_self))
      refine ⟨s, t, .done stops, inv.repayload _ (sorted_anyOrder _ _), labels ▸ active, iff_of_true ?_ ?_⟩
      · exact ⟨inv.sorted, labels ▸ later⟩
      · rintro p rest' ⟨behind, duep⟩
        rw [behindDue_other (by simp [due])] at behind
        cases behind
        rw [due] at duep
        cases duep
    | true =>
      cases kind : (st.payload a).isOneshot with
      | true =>
        have passed : ∀ p rest', Rearms clock st (a :: rest) p rest' ↔ Rearms clock st rest p rest' := by
          intro p rest'
          rw [Rearms, Rearms, behindDue_oneshot due kind]
        obtain ⟨base, t₁, -, step, -, -, -, inv₁, labels₁, others⟩ :=
          runTimersStep_fires (fun base _ => keeps _ _ base) inv labels
            (by rw [dueAt, self]; exact due) (active a List.mem_cons_self) (by rw [self]; exact kind)
        obtain ⟨final, t', ended, inv', active', settled⟩ :=
          ih (s := ⟨_, s.readings, s.fired ++ [⟨a, _, _, base⟩]⟩) inv₁ labels₁
            (fun b member => by
              rw [others b member]
              exact active b (List.mem_cons_of_mem _ member))
            (fun b member => by rw [others b member, same b (List.mem_cons_of_mem _ member)]) readings
            (fun p rest' rearms => ticks p rest' ((passed p rest').mpr rearms))
            (fun p rest' rearms => noWrap p rest' ((passed p rest').mpr rearms))
        refine ⟨final, t', .again step ended, inv', active', settled.trans ?_⟩
        simp only [RearmFits, passed]
      | false =>
        have behind : behindDue clock st (a :: rest) = a :: rest := behindDue_other (by simp [kind])
        obtain ⟨final, ended, inv', active', settled⟩ :=
          rearm_loop keeps inv labels active same readings due kind
            (lt_rearmed (ticks a rest ⟨behind, due⟩) (noWrap a rest ⟨behind, due⟩))
        refine ⟨final, t, ended, inv', active', settled.trans ?_⟩
        constructor
        · rintro next p rest' ⟨behind', -⟩
          rw [behind] at behind'
          cases behind'
          exact next
        · intro fits
          exact fits a rest ⟨behind, due⟩

end Loop

/-! ## Histories -/

section Histories

variable [DecidableEq α] {callback : κ → δ → St α (Timer κ δ) → St α (Timer κ δ)}

/-- The states of an event base with one-shot and periodic timers, with the last reading of a
strictly increasing clock; every call of `run_timers` meets `allowed`. -/
inductive ClockedRun (callback : κ → δ → St α (Timer κ δ) → St α (Timer κ δ))
    (allowed : (Nat → UInt64) → St α (Timer κ δ) → Prop) : St α (Timer κ δ) → UInt64 → Prop where
  | create (node : α → Option (Rbnode α)) (payload : α → Timer κ δ) (start : UInt64) :
      ClockedRun callback allowed (rbtreeInit node payload) start
  | caller {st st' : St α (Timer κ δ)} {last : UInt64} (run : ClockedRun callback allowed st last)
      (same : SameLinks st st') : ClockedRun callback allowed st' last
  | add {st st' : St α (Timer κ δ)} {last : UInt64} {a : α} {n : Rbnode α}
      (run : ClockedRun callback allowed st last) (found : st.node a = some n)
      (inactive : (st.payload a).isActive = false) (interval : 1 ≤ (st.payload a).interval)
      (now : UInt64) (increasing : last < now) (ended : Returns (addTimer · st now a) (.ok, st')) :
      ClockedRun callback allowed st' now
  | runTimers {st : St α (Timer κ δ)} {last : UInt64} {clock : Nat → UInt64} {final : Running α κ δ}
      (run : ClockedRun callback allowed st last) (later : last < clock 0)
      (ticks : ∀ addrs, InOrder st st.root addrs → Ticks clock st addrs) (meets : allowed clock st)
      (ended : Returns (Event.runTimers callback clock · st) final) :
      ClockedRun callback allowed final.base (clock (final.readings - 1))

/-- The call keeps the order: what it re-arms fits in front of the next timer. -/
def InPlace (clock : Nat → UInt64) (st : St α (Timer κ δ)) : Prop :=
  ∀ addrs, InOrder st st.root addrs → NoWrap clock st addrs ∧ RearmFits clock st addrs

theorem ClockedRun.inv (keeps : ∀ cb data st, SameLinks st (callback cb data st))
    {st : St α (Timer κ δ)} {last : UInt64} (run : ClockedRun callback InPlace st last) :
    ∃ t, Inv timerCmp st t ∧ ∀ a ∈ t.labels, (st.payload a).isActive = true := by
  induction run with
  | create node payload start => exact ⟨.nil, inv_init node payload, fun _ member => nomatch member⟩
  | caller _ same ih =>
    obtain ⟨t, inv, active⟩ := ih
    refine ⟨t, inv.sameLinks same, fun a member => ?_⟩
    rw [same.payload a ((inv.focus.linked_iff a).mpr member)]
    exact active a member
  | @add st _ _ a n _ found inactive _ now _ ended ih =>
    obtain ⟨t, inv, active⟩ := ih
    -- linked timers are active, so an inactive one is not linked
    have fresh : a ∉ t.labels := by
      intro member
      rw [active a member] at inactive
      cases inactive
    obtain ⟨st₁, t₁, ended₁, inv₁, inTree, -, payload⟩ := addTimer_active inv now found inactive fresh
    cases ended.unique ended₁
    refine ⟨t₁, inv₁, fun b member => ?_⟩
    by_cases equal : b = a
    · rw [payload, equal, Function.update_self, isActive_setActive]
    · rw [payload, Function.update_of_ne equal]
      exact active b (((inTree b).mp member).resolve_left equal)
  | @runTimers st _ clock final _ _ ticks meets ended ih =>
    obtain ⟨t, inv, active⟩ := ih
    obtain ⟨noWrap, fits⟩ := meets t.labels inv.inOrder
    obtain ⟨final', t', ended', inv', active', settled⟩ :=
      periodic_loop (s := ⟨st, 1, []⟩) keeps inv rfl active (fun _ _ => rfl) rfl
        (ticks t.labels inv.inOrder) noWrap
    cases ended.unique ended'.returns
    -- the condition on the call is what sorts the sequence again
    exact ⟨t', inv'.repayload _ (settled.mpr fits).1, active'⟩

/-- One call of `run_timers` on timers in order, all of them active. -/
theorem call_orderly_iff (keeps : ∀ cb data st, SameLinks st (callback cb data st))
    {st : St α (Timer κ δ)} {t : ColorTree.Bintree α} {clock : Nat → UInt64} (inv : Inv timerCmp st t)
    (active : ∀ a ∈ t.labels, (st.payload a).isActive = true) (ticks : Ticks clock st t.labels)
    (noWrap : NoWrap clock st t.labels) :
    ∃ final, Returns (runTimers callback clock · st) final ∧
      (Orderly (clock 0) final.base ↔ RearmFits clock st t.labels) := by
  obtain ⟨final, t', ended, inv', active', settled⟩ :=
    periodic_loop (s := ⟨st, 1, []⟩) keeps inv rfl active (fun _ _ => rfl) rfl ticks noWrap
  exact ⟨final, ended.returns, (orderly_iff inv' active').trans settled⟩

/-- In a history whose calls of `run_timers` all keep the order, the next call of `run_timers`
ends, and it leaves the timers in order with none of them due exactly when what it re-arms fits in
front of the next timer. -/
theorem runTimers_orderly_iff (keeps : ∀ cb data st, SameLinks st (callback cb data st))
    {st : St α (Timer κ δ)} {last : UInt64} (run : ClockedRun callback InPlace st last)
    {clock : Nat → UInt64} {addrs : List α} (walk : InOrder st st.root addrs)
    (ticks : Ticks clock st addrs) (noWrap : NoWrap clock st addrs) :
    ∃ final, Returns (runTimers callback clock · st) final ∧
      (Orderly (clock 0) final.base ↔ RearmFits clock st addrs) := by
  obtain ⟨t, inv, active⟩ := run.inv keeps
  obtain rfl := walk.unique inv.inOrder
  exact call_orderly_iff keeps inv active ticks noWrap

/-- Timer 1 is a periodic timer of 10 ms, timer 2 a one-shot timer of 30 ms. -/
def unarmedTimers : St Nat (Timer Unit Unit) :=
  rbtreeInit (fun _ => some ⟨.black, .null, .null, .null⟩) fun a =>
    if a = 1 then makeTimer 10 0 () () else makeTimer 30 timerFlagOneshot () ()

/-- Timer 1 is added at the time 1 and timer 2 at the time 2. -/
def mixedTimers : St Nat (Timer Unit Unit) := addNumbered (addNumbered unarmedTimers 1) 2

/-- The clock in a call that is entered at the time `start`. -/
def tickingFrom (start : UInt64) (i : Nat) : UInt64 := start + .ofNat i

theorem mixedTimers_run (allowed : (Nat → UInt64) → St Nat (Timer Unit Unit) → Prop) :
    ClockedRun (fun _ _ st => st) allowed mixedTimers 2 := by
  have start : ClockedRun (fun _ _ st => st) allowed unarmedTimers 0 := .create _ _ 0
  have first : ClockedRun (fun _ _ st => st) allowed (addNumbered unarmedTimers 1) 1 :=
    .add (a := 1) start rfl rfl (by decide) 1 (by decide) (.of_add 9 fun _ => rfl)
  have found : (addNumbered unarmedTimers 1).node 2 = some ⟨.black, .null, .null, .null⟩ := rfl
  have idle : ((addNumbered unarmedTimers 1).payload 2).isActive = false := rfl
  have interval : ((addNumbered unarmedTimers 1).payload 2).interval = 30 := rfl
  exact .add (a := 2) first found idle (by rw [interval]; decide) 2 (by decide)
    (.of_add 9 fun _ => rfl)

theorem mixedTimers_walk : InOrder mixedTimers mixedTimers.root [1, 2] :=
  .node (n := ⟨.black, .rbnil, .node 2, .null⟩) rfl .leaf
    (.node (n := ⟨.red, .rbnil, .rbnil, .node 1⟩) rfl .leaf .leaf)

/-- `run_timers` is entered at 10.5 ms: the periodic timer is re-armed for 20.5 ms and stays in
front of the other one. -/
theorem runTimers_orderly_iff_mixed :
    ∃ final, Returns (runTimers (fun _ _ st => st) (tickingFrom 10500000) · mixedTimers) final ∧
      (Orderly (tickingFrom 10500000 0) final.base ↔
        RearmFits (tickingFrom 10500000) mixedTimers [1, 2]) := by
  have behind : behindDue (tickingFrom 10500000) mixedTimers [1, 2] = [1, 2] := by decide +kernel
  refine runTimers_orderly_iff (fun _ _ _ => ⟨rfl, rfl, fun _ _ => rfl, fun _ _ => rfl⟩)
    (mixedTimers_run InPlace) mixedTimers_walk (fun _ _ _ => by decide) ?_
  rintro p rest ⟨front, -⟩
  rw [behind] at front
  cases front
  decide +kernel

/-- `run_timers` is entered at 25 ms: the periodic timer is re-armed for 35 ms and stays in front of
the other one, which is due at 30 ms. -/
theorem not_runTimers_orderly_mixed :
    ¬ ∀ (st : St Nat (Timer Unit Unit)) (last : UInt64) (clock : Nat → UInt64) (final : Running Nat Unit Unit),
      ClockedRun (fun _ _ st => st) (fun _ _ => True) st last → last < clock 0 → clock 0 < clock 1 →
      Returns (runTimers (fun _ _ st => st) clock · st) final → Orderly (clock 0) final.base := by
  intro all
  have keeps : ∀ (_ _ : Unit) (st : St Nat (Timer Unit Unit)), SameLinks st st :=
    fun _ _ _ => ⟨rfl, rfl, fun _ _ => rfl, fun _ _ => rfl⟩
  obtain ⟨t, inv, active⟩ := (mixedTimers_run InPlace).inv keeps
  have labels : t.labels = [1, 2] := inv.inOrder.unique mixedTimers_walk
  have behind : behindDue (tickingFrom 25000000) mixedTimers [1, 2] = [1, 2] := by decide +kernel
  have noWrap : NoWrap (tickingFrom 25000000) mixedTimers t.labels := by
    rintro p rest ⟨front, -⟩
    rw [labels, behind] at front
    cases front
    decide +kernel
  obtain ⟨final, ended, orderly⟩ :=
    call_orderly_iff keeps inv active (fun _ _ _ => by decide) noWrap
  have fits := orderly.mp (all _ _ _ _ (mixedTimers_run _) (by decide) (by decide) ended)
  rw [labels] at fits
  exact absurd (fits 1 [2] ⟨behind, by decide +kernel⟩ 2 rfl) (by decide +kernel)

end Histories

end Cask.Event
