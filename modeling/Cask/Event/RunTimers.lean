import Cask.Event.Timer
import Cask.RbTree.Queries

/-! # Running the timers

`run_timers` takes the leftmost timer of the tree as long as it is due.  A one-shot timer is
taken out and a periodic one gets a new trigger where it is, before the callback is called;
the callback may free the timer.  The callbacks are an arbitrary function on the memory.

The clock is read once at the start and once for every periodic timer that fires: `clock i`
is the `i`-th reading of the call.
-/

namespace Cask.Event

open RbTree Fuel

variable {α κ δ : Type}

/-! ## The loop -/

/-- `timer->flags & TIMER_FLAG_ONESHOT` -/
def Timer.isOneshot (t : Timer κ δ) : Bool := t.flags &&& timerFlagOneshot != 0

/-- A call of a timer's callback, with the memory in which it is made. -/
structure Fired (α κ δ : Type) where
  timer : α
  cb : κ
  data : δ
  base : St α (Timer κ δ)

/-- The state of the loop: the memory, how often the clock was read and the calls made so far. -/
structure Running (α κ δ : Type) where
  base : St α (Timer κ δ)
  readings : Nat
  fired : List (Fired α κ δ)

variable [DecidableEq α]

/-- `t->cb(t->data)` -/
def fire (callback : κ → δ → St α (Timer κ δ) → St α (Timer κ δ)) (s : Running α κ δ) (a : α) :
    Except Fault (Running α κ δ) := do
  let timer ← timerAt s.base a
  -- `assert(t->cb)`: a value of `κ` is a callback, never `NULL`
  return ⟨callback timer.cb timer.data s.base, s.readings,
    s.fired ++ [⟨a, timer.cb, timer.data, s.base⟩]⟩

/-- The body of the loop of `run_timers` for the leftmost timer `a`; the loop was entered at the
time `clock 0`. -/
def visitTimer (callback : κ → δ → St α (Timer κ δ) → St α (Timer κ δ)) (clock : Nat → UInt64)
    (fuel : Nat) (s : Running α κ δ) (a : α) :
    Except Fault (Next (Running α κ δ) (Running α κ δ)) := do
  let timer ← timerAt s.base a
  if timer.trigger ≤ clock 0 then
    if timer.isActive then
      if timer.isOneshot then
        -- first the timer, then the callback, which may free it
        let (_, base) ← delTimer fuel s.base a
        return .again (← fire callback { s with base := base } a)
      else
        let base := setTimer s.base a (updateTrigger (clock s.readings) timer)
        return .again (← fire callback ⟨base, s.readings + 1, s.fired⟩ a)
    else
      -- `del_timer` refuses an inactive timer, and the tree stays as it is
      let (_, base) ← delTimer fuel s.base a
      return .again { s with base := base }
  else return .done s

/-- One iteration of the loop of `run_timers`. -/
def runTimersStep (callback : κ → δ → St α (Timer κ δ) → St α (Timer κ δ)) (clock : Nat → UInt64)
    (fuel : Nat) (s : Running α κ δ) : Except Fault (Next (Running α κ δ) (Running α κ δ)) := do
  match ← rbtreeLeftmost fuel s.base s.base.root with
  | .null => return .done s
  | .rbnil => throw .notAllocated
  | .node a => visitTimer callback clock fuel s a

/-- `run_timers(base)` -/
def runTimers (callback : κ → δ → St α (Timer κ δ) → St α (Timer κ δ)) (clock : Nat → UInt64)
    (fuel : Nat) (base : St α (Timer κ δ)) : Except Fault (Running α κ δ) :=
  loop .fuel (runTimersStep callback clock fuel) fuel ⟨base, 1, []⟩

/-! ## One iteration -/

section Iteration

variable {callback : κ → δ → St α (Timer κ δ) → St α (Timer κ δ)} {clock : Nat → UInt64}
  {cmp : Timer κ δ → Timer κ δ → Int} {s : Running α κ δ} {st : St α (Timer κ δ)}
  {t : ColorTree.Bintree α} {a : α} {rest : List α}

omit [DecidableEq α] in
theorem allocated_first (inv : Inv cmp st t) (first : t.labels = a :: rest) :
    ∃ n, st.node a = some n := by
  refine inv.focus.tree.allocated ?_
  rw [first]
  exact List.mem_cons_self

/-- The deletion of the leftmost timer unlinks the timer's own node. -/
theorem delTimer_leftmost (inv : Inv timerCmp st t) (first : t.labels = a :: rest)
    (active : (st.payload a).isActive = true) :
    ∃ st' t', Returns (delTimer · st a) (.ok, st') ∧ Inv timerCmp st' t' ∧ t'.labels = rest ∧
      st'.payload = Function.update st.payload a (st.payload a).clearActive ∧
      ∀ b, b ∉ rest → st'.node b = st.node b := by
  have member : a ∈ t.labels := by
    rw [first]
    exact List.mem_cons_self
  obtain ⟨st', t', lower, upper, n, ended, inv', frame, found, outcome⟩ := delTimer_inv inv active member
  rw [if_pos (.inl (inv.leftmost_left first found))] at outcome
  obtain ⟨before, after, payload⟩ := outcome
  have nodup : t.labels.Nodup := inv.focus.nodup
  rw [before] at first nodup
  obtain ⟨rfl, rfl⟩ := front_nil nodup first
  refine ⟨st', t', ended, inv', after, payload, fun b absent => frame b ?_⟩
  rw [after]
  exact absent

theorem runTimersStep_empty (inv : Inv cmp s.base t) (empty : t.labels = []) :
    Returns (runTimersStep callback clock · s) (.done s) := by
  have none := inv.leftmost
  rw [empty] at none
  exact none.bind (.const _)

variable (callback clock) in
theorem runTimersStep_first {next : Next (Running α κ δ) (Running α κ δ)}
    (inv : Inv cmp s.base t) (first : t.labels = a :: rest)
    (visit : Returns (visitTimer callback clock · s a) next) :
    Returns (runTimersStep callback clock · s) next := by
  have found := inv.leftmost
  rw [first] at found
  exact found.bind visit

omit [DecidableEq α] in
variable (callback) in
theorem fire_ok {n : Rbnode α} (found : s.base.node a = some n) :
    fire callback s a = .ok ⟨callback (s.base.payload a).cb (s.base.payload a).data s.base, s.readings,
      s.fired ++ [⟨a, (s.base.payload a).cb, (s.base.payload a).data, s.base⟩]⟩ := by
  rw [fire, timerAt_ok found, ok_bind, pure_ok]

section Visit

variable {n : Rbnode α} (found : s.base.node a = some n)

include found

theorem visitTimer_later (later : clock 0 < (s.base.payload a).trigger) :
    Returns (visitTimer callback clock · s a) (.done s) := by
  have notDue : ¬ (s.base.payload a).trigger ≤ clock 0 := UInt64.not_le.mpr later
  simp only [visitTimer, timerAt_ok found, ok_bind, if_neg notDue, pure_ok]
  exact .const _

variable (due : (s.base.payload a).trigger ≤ clock 0) (active : (s.base.payload a).isActive = true)

include due active

theorem visitTimer_oneshot {st' : St α (Timer κ δ)} {n' : Rbnode α}
    (oneshot : (s.base.payload a).isOneshot = true)
    (deleted : Returns (delTimer · s.base a) (.ok, st')) (still : st'.node a = some n')
    (payload : st'.payload a = (s.base.payload a).clearActive) :
    Returns (visitTimer callback clock · s a)
      (.again ⟨callback (s.base.payload a).cb (s.base.payload a).data st', s.readings,
        s.fired ++ [⟨a, (s.base.payload a).cb, (s.base.payload a).data, st'⟩]⟩) := by
  simp only [visitTimer, timerAt_ok found, ok_bind, if_pos due, active, oneshot, if_true]
  refine deleted.bind ?_
  have called := fire_ok callback (s := { s with base := st' }) still
  simp only [payload, Timer.clearActive] at called
  simp only [called, ok_bind, pure_ok]
  exact .const _

theorem visitTimer_periodic (periodic : (s.base.payload a).isOneshot = false) :
    Returns (visitTimer callback clock · s a)
      (.again ⟨callback (s.base.payload a).cb (s.base.payload a).data
          (setTimer s.base a (updateTrigger (clock s.readings) (s.base.payload a))),
        s.readings + 1,
        s.fired ++ [⟨a, (s.base.payload a).cb, (s.base.payload a).data,
          setTimer s.base a (updateTrigger (clock s.readings) (s.base.payload a))⟩]⟩) := by
  have called := fire_ok callback (a := a) (n := n)
    (s := ⟨setTimer s.base a (updateTrigger (clock s.readings) (s.base.payload a)), s.readings + 1,
      s.fired⟩) found
  simp only [setTimer_payload, Function.update_self, updateTrigger] at called
  simp only [visitTimer, timerAt_ok found, ok_bind, if_pos due, active, if_true, periodic,
    Bool.false_eq_true, if_false, updateTrigger, called, pure_ok]
  exact .const _

end Visit

variable (callback) in
/-- An iteration on a due one-shot timer takes it out of the tree before its callback is called. -/
theorem runTimersStep_oneshot (inv : Inv timerCmp s.base t) (first : t.labels = a :: rest)
    (due : (s.base.payload a).trigger ≤ clock 0) (active : (s.base.payload a).isActive = true)
    (oneshot : (s.base.payload a).isOneshot = true) :
    ∃ st' t', Returns (runTimersStep callback clock · s)
        (.again ⟨callback (s.base.payload a).cb (s.base.payload a).data st', s.readings,
          s.fired ++ [⟨a, (s.base.payload a).cb, (s.base.payload a).data, st'⟩]⟩) ∧
      Returns (delTimer · s.base a) (.ok, st') ∧ Inv timerCmp st' t' ∧ t'.labels = rest ∧
      st'.payload = Function.update s.base.payload a (s.base.payload a).clearActive := by
  obtain ⟨st', t', deleted, inv', labels, payload, frame⟩ := delTimer_leftmost inv first active
  have nodup : t.labels.Nodup := inv.focus.nodup
  rw [first, List.nodup_cons] at nodup
  obtain ⟨n, found⟩ := allocated_first inv first
  have still : st'.node a = some n := (frame a nodup.1).trans found
  have cleared : st'.payload a = (s.base.payload a).clearActive := by rw [payload, Function.update_self]
  exact ⟨st', t', runTimersStep_first callback clock inv first
    (visitTimer_oneshot found due active oneshot deleted still cleared), deleted, inv', labels, payload⟩

end Iteration

/-! ## One-shot timers -/

section Oneshot

variable {callback : κ → δ → St α (Timer κ δ) → St α (Timer κ δ)} {clock : Nat → UInt64}
  {s : Running α κ δ} {st : St α (Timer κ δ)} {t : ColorTree.Bintree α} {a : α} {addrs rest : List α}

/-- The trigger of the timer at `a` is at most `now`. -/
def dueAt (now : UInt64) (st : St α (Timer κ δ)) (a : α) : Bool := (st.payload a).trigger ≤ now

/-- The leftmost timer of `st` is `a` and due, and without it the memory is `base`. -/
structure TakesOut (now : UInt64) (st : St α (Timer κ δ)) (a : α) (base : St α (Timer κ δ)) : Prop where
  leftmost : Returns (rbtreeLeftmost · st st.root) (.node a)
  due : dueAt now st a = true
  deleted : Returns (delTimer · st a) (.ok, base)

/-- The memory `final` is what the calls have made of `st`, one after the other: each is made in the memory
that is left when its timer has been taken out of the memory that the call before it left. -/
inductive Called (callback : κ → δ → St α (Timer κ δ) → St α (Timer κ δ)) (now : UInt64) :
    St α (Timer κ δ) → List (Fired α κ δ) → St α (Timer κ δ) → Prop where
  | none {st : St α (Timer κ δ)} : Called callback now st [] st
  | call {st base final : St α (Timer κ δ)} {a : α} {calls : List (Fired α κ δ)} (takesOut : TakesOut now st a base)
      (rest : Called callback now (callback (base.payload a).cb (base.payload a).data base) calls final) :
      Called callback now st (⟨a, (base.payload a).cb, (base.payload a).data, base⟩ :: calls) final

/-- No callback changes the tree, in the memory in which it is called. -/
def KeepsTree (callback : κ → δ → St α (Timer κ δ) → St α (Timer κ δ)) (now : UInt64) (st : St α (Timer κ δ)) :
    Prop :=
  ∀ calls before a base, Called callback now st calls before → TakesOut now before a base →
    SameLinks base (callback (base.payload a).cb (base.payload a).data base)

/-- What a call of a callback is made for. -/
def Fired.target (call : Fired α κ δ) : α × κ × δ := (call.timer, call.cb, call.data)

/-- The timer has been taken out and cleared when its callback is called. -/
def Fired.Alone (call : Fired α κ δ) : Prop :=
  ¬ Linked call.base call.timer ∧ (call.base.payload call.timer).isActive = false

/-- What the timer at `a` is to call. -/
def targetOf (st : St α (Timer κ δ)) (a : α) : α × κ × δ := (a, (st.payload a).cb, (st.payload a).data)

omit [DecidableEq α] in
/-- If the first timer is not due then none is. -/
theorem not_due_of_first {now : UInt64} (sorted : Sorted timerCmp st.payload (a :: rest))
    (later : dueAt now st a = false) : ∀ b ∈ a :: rest, dueAt now st b = false := by
  rw [Sorted, List.pairwise_cons] at sorted
  simp only [dueAt, decide_eq_false_iff_not, UInt64.not_le] at later ⊢
  intro b member
  obtain rfl | inRest := List.mem_cons.mp member
  · exact later
  · exact UInt64.lt_of_lt_of_le later (timerCmp_le.mp (sorted.1 b inRest))

omit [DecidableEq α] in
theorem filter_due_of_first {now : UInt64} (sorted : Sorted timerCmp st.payload (a :: rest))
    (later : dueAt now st a = false) :
    (a :: rest).filter (dueAt now st) = [] ∧ (a :: rest).filter (!dueAt now st ·) = a :: rest := by
  have none := not_due_of_first sorted later
  constructor
  · rw [List.filter_eq_nil_iff]
    intro b member
    simp [none b member]
  · rw [List.filter_eq_self]
    intro b member
    simp [none b member]

/-- An iteration that fires: the first timer is taken out and called, the others stay. -/
theorem runTimersStep_fires
    (keeps : ∀ base, TakesOut (clock 0) s.base a base →
      SameLinks base (callback (base.payload a).cb (base.payload a).data base))
    (inv : Inv timerCmp s.base t) (first : t.labels = a :: rest) (due : dueAt (clock 0) s.base a = true)
    (active : (s.base.payload a).isActive = true) (oneshot : (s.base.payload a).isOneshot = true) :
    ∃ base t', TakesOut (clock 0) s.base a base ∧
      Returns (runTimersStep callback clock · s)
        (.again ⟨callback (base.payload a).cb (base.payload a).data base, s.readings,
          s.fired ++ [⟨a, (base.payload a).cb, (base.payload a).data, base⟩]⟩) ∧
      targetOf base a = targetOf s.base a ∧ ¬ Linked base a ∧ (base.payload a).isActive = false ∧
      Inv timerCmp (callback (base.payload a).cb (base.payload a).data base) t' ∧ t'.labels = rest ∧
      ∀ b ∈ rest, (callback (base.payload a).cb (base.payload a).data base).payload b = s.base.payload b := by
  have nodup : t.labels.Nodup := inv.focus.nodup
  rw [first, List.nodup_cons] at nodup
  obtain ⟨base, t', step, deleted, inv', labels, payload⟩ :=
    runTimersStep_oneshot callback inv first
      (of_decide_eq_true due) active oneshot
  have leftmost := inv.leftmost
  rw [first] at leftmost
  have takesOut : TakesOut (clock 0) s.base a base := ⟨leftmost, due, deleted⟩
  have unlinked : ¬ Linked base a := by
    rw [inv'.focus.linked_iff, labels]
    exact nodup.1
  have cleared : base.payload a = (s.base.payload a).clearActive := by rw [payload, Function.update_self]
  have idle : (base.payload a).isActive = false := by rw [cleared, isActive_clearActive]
  have cb : (base.payload a).cb = (s.base.payload a).cb := by rw [cleared, Timer.clearActive]
  have data : (base.payload a).data = (s.base.payload a).data := by rw [cleared, Timer.clearActive]
  -- the callback runs after the timer was taken out
  have same := keeps base takesOut
  rw [← cb, ← data] at step
  refine ⟨base, t', takesOut, step, by rw [targetOf, targetOf, cb, data], unlinked, idle, inv'.sameLinks same, labels,
    fun b member => ?_⟩
  have linked : Linked base b := (inv'.focus.linked_iff b).mpr (labels ▸ member)
  have differ : b ≠ a := by
    rintro rfl
    exact nodup.1 member
  exact (same.payload b linked).trans (by rw [payload, Function.update_of_ne differ])

variable (clock) in
/-- The loop from any state whose linked timers are active and one-shot. -/
theorem runTimers_loop (keeps : KeepsTree callback (clock 0) s.base) (inv : Inv timerCmp s.base t)
    (labels : t.labels = addrs)
    (oneshots : ∀ a ∈ addrs, (s.base.payload a).isActive = true ∧ (s.base.payload a).isOneshot = true) :
    ∃ final calls t', LoopReturns .fuel (runTimersStep callback clock) s final ∧
      final.fired = s.fired ++ calls ∧ Called callback (clock 0) s.base calls final.base ∧
      calls.map Fired.target = (addrs.filter (dueAt (clock 0) s.base)).map (targetOf s.base) ∧
      (∀ call ∈ calls, call.Alone) ∧
      Inv timerCmp final.base t' ∧ t'.labels = addrs.filter (!dueAt (clock 0) s.base ·) ∧
      ∀ a ∈ t'.labels, final.base.payload a = s.base.payload a := by
  -- every iteration that goes on takes the first timer out of the sequence
  induction addrs generalizing s t with
  | nil =>
    exact ⟨s, [], t, .done (runTimersStep_empty inv labels), by simp, .none, rfl, by simp, inv, labels,
      fun _ _ => rfl⟩
  | cons a rest ih =>
    obtain ⟨active, oneshot⟩ := oneshots a List.mem_cons_self
    cases due : dueAt (clock 0) s.base a with
    | false =>
      -- the first timer is not due: the loop ends, and no other one is due
      obtain ⟨noneDue, allLater⟩ := filter_due_of_first (labels ▸ inv.sorted) due
      obtain ⟨n, found⟩ := allocated_first inv labels
      have later : clock 0 < (s.base.payload a).trigger := by simpa [dueAt] using due
      have stops := runTimersStep_first callback clock inv labels (visitTimer_later found later)
      rw [noneDue, allLater]
      exact ⟨s, [], t, .done stops, by simp, .none, rfl, by simp, inv, labels, fun _ _ => rfl⟩
    | true =>
      -- the first timer fires, and the rest is the loop from there
      obtain ⟨base, t₁, takesOut, step, target, unlinked, idle, inv₁, labels₁, others⟩ :=
        runTimersStep_fires (fun base => keeps [] s.base a base .none) inv labels due active oneshot
      -- a later call is made in a memory that the calls so far have made
      have keeps₁ : KeepsTree callback (clock 0) (callback (base.payload a).cb (base.payload a).data base) :=
        fun calls before b base' called => keeps _ before b base' (.call takesOut called)
      obtain ⟨final, calls, t', ended, fired, called, targets, allAlone, inv', kept, payloads⟩ :=
        ih (s := ⟨_, s.readings, s.fired ++ [⟨a, _, _, base⟩]⟩) keeps₁ inv₁ labels₁ fun b member => by
          rw [others b member]
          exact oneshots b (List.mem_cons_of_mem _ member)
      have sameDue : ∀ b ∈ rest, dueAt (clock 0) (callback (base.payload a).cb (base.payload a).data base) b =
          dueAt (clock 0) s.base b := by
        intro b member
        rw [dueAt, dueAt, others b member]
      have sameTarget : ∀ b ∈ rest, targetOf (callback (base.payload a).cb (base.payload a).data base) b =
          targetOf s.base b := by
        intro b member
        rw [targetOf, targetOf, others b member]
      have stays : rest.filter (!dueAt (clock 0) (callback (base.payload a).cb (base.payload a).data base) ·) =
          rest.filter (!dueAt (clock 0) s.base ·) :=
        List.filter_congr fun b member => by rw [sameDue b member]
      refine ⟨final, _, t', .again step ended, ?_, .call takesOut called, ?_, ?_, inv', ?_, fun b member => ?_⟩
      · rw [fired, List.append_assoc, List.singleton_append]
      · rw [List.map_cons, targets, List.filter_congr sameDue, List.filter_cons_of_pos due, List.map_cons]
        rw [List.map_congr_left fun b member => sameTarget b (List.mem_of_mem_filter member)]
        exact congrArg (· :: _) target
      · exact List.forall_mem_cons.mpr ⟨⟨unlinked, idle⟩, allAlone⟩
      · rw [kept, stays, List.filter_cons_of_neg (by simp [due])]
      · have inRest : b ∈ rest := List.mem_of_mem_filter (kept ▸ member)
        rw [payloads b member, others b inRest]

variable (clock) in
/-- `run_timers` on active one-shot timers ends.  It calls the callbacks of the due timers, each
once and in order, after the timer has been taken out, and leaves every other timer as it was; the
memory is the one that these calls have made. -/
theorem runTimers_fires_due (keeps : KeepsTree callback (clock 0) st) (valid : RedBlack timerCmp st)
    (walk : InOrder st st.root addrs)
    (oneshots : ∀ a, Linked st a → Active st a ∧ (st.payload a).isOneshot = true) :
    ∃ final, Returns (runTimers callback clock · st) final ∧
      Called callback (clock 0) st final.fired final.base ∧
      final.fired.map Fired.target = (addrs.filter (dueAt (clock 0) st)).map (targetOf st) ∧
      (final.fired.map Fired.timer).Nodup ∧
      Sorted timerCmp st.payload (final.fired.map Fired.timer) ∧
      (∀ call ∈ final.fired, call.Alone) ∧
      RedBlack timerCmp final.base ∧
      InOrder final.base final.base.root (addrs.filter (!dueAt (clock 0) st ·)) ∧
      ∀ a, Linked st a → dueAt (clock 0) st a = false →
        Linked final.base a ∧ Active final.base a ∧ final.base.payload a = st.payload a := by
  obtain ⟨t, inv, rfl⟩ := valid.inv walk
  have linked : ∀ a ∈ t.labels, (st.payload a).isActive = true ∧ (st.payload a).isOneshot = true := by
    intro a member
    obtain ⟨⟨_, _, active⟩, oneshot⟩ := oneshots a ((inv.focus.linked_iff a).mpr member)
    exact ⟨active, oneshot⟩
  obtain ⟨final, calls, t', ended, fired, called, targets, alone, inv', labels, payloads⟩ :=
    runTimers_loop clock (s := ⟨st, 1, []⟩) keeps inv rfl linked
  obtain rfl : final.fired = calls := fired
  have timers : final.fired.map Fired.timer = t.labels.filter (dueAt (clock 0) st) := by
    have firsts := congrArg (List.map Prod.fst) targets
    simpa [List.map_map, Function.comp_def, Fired.target, targetOf] using firsts
  refine ⟨final, ended.returns, called, targets, ?_, ?_, alone, inv'.redBlack, labels ▸ inv'.inOrder, ?_⟩
  · rw [timers]
    exact inv.focus.nodup.filter _
  · rw [timers]
    exact inv.sorted.filter _
  · intro a isLinked later
    have member : a ∈ t'.labels := by
      rw [labels, List.mem_filter]
      exact ⟨(inv.focus.linked_iff a).mp isLinked, by simpa using later⟩
    obtain ⟨n, found⟩ := inv'.focus.tree.allocated member
    have same := payloads a member
    refine ⟨(inv'.focus.linked_iff a).mpr member, ⟨n, found, ?_⟩, same⟩
    rw [same]
    exact (linked a ((inv.focus.linked_iff a).mp isLinked)).1

/-! ## Timers that belong to what they close -/

/-- `timeout_callback` as the tree sees it, on an object that starts with its timer: `close_connection` calls
`del_timer`, and frees the object. -/
def closeOwner (_ : Unit) (owner : α) (st : St α (Timer Unit α)) : St α (Timer Unit α) :=
  let st := ((delTimer 0 st owner).toOption.map Prod.snd).getD st
  { st with node := Function.update st.node owner none }

/-- A timer that was taken out is not taken out again. -/
theorem closeOwner_alone {st : St α (Timer Unit α)} {n : Rbnode α} (found : st.node a = some n)
    (idle : (st.payload a).isActive = false) :
    closeOwner () a st = { st with node := Function.update st.node a none } := by
  have refused : delTimer 0 st a = .ok (.err, st) := by
    simp only [delTimer, timerAt_ok found, ok_bind, idle, Bool.false_eq_true, if_false, pure_ok]
  simp [closeOwner, refused, Except.toOption]

/-- Every linked timer is active and belongs to the object that it starts. -/
def SelfOwned (st : St α (Timer Unit α)) (t : ColorTree.Bintree α) : Prop :=
  ∀ a ∈ t.labels, (st.payload a).isActive = true ∧ (st.payload a).data = a

/-- One call: the object of the first timer is freed, and the tree stays as it is without it. -/
theorem closeOwner_takesOut {st base : St α (Timer Unit α)} {now : UInt64} (inv : Inv timerCmp st t)
    (own : SelfOwned st t) (takesOut : TakesOut now st a base) :
    SameLinks base (closeOwner (base.payload a).cb (base.payload a).data base) ∧
      ∃ t', Inv timerCmp base t' ∧ SelfOwned base t' := by
  have leftmost := inv.leftmost
  cases labels : t.labels with
  | nil =>
    rw [labels] at leftmost
    cases takesOut.leftmost.unique leftmost
  | cons b rest =>
    rw [labels] at leftmost
    cases takesOut.leftmost.unique leftmost
    obtain ⟨active, data⟩ := own a (labels ▸ List.mem_cons_self)
    obtain ⟨base', t', deleted, inv', labels', payload, frame⟩ := delTimer_leftmost inv labels active
    cases takesOut.deleted.unique deleted
    have nodup : t.labels.Nodup := inv.focus.nodup
    rw [labels, List.nodup_cons] at nodup
    obtain ⟨n, found⟩ := allocated_first inv labels
    have still : base.node a = some n := (frame a nodup.1).trans found
    have cleared : base.payload a = (st.payload a).clearActive := by rw [payload, Function.update_self]
    have idle : (base.payload a).isActive = false := by rw [cleared, isActive_clearActive]
    have owner : (base.payload a).data = a := by rw [cleared, Timer.clearActive, data]
    have unlinked : ∀ b, Linked base b → b ≠ a := by
      rintro b linked rfl
      exact nodup.1 (labels' ▸ (inv'.focus.linked_iff b).mp linked)
    refine ⟨?_, t', inv', fun b member => ?_⟩
    · rw [owner, closeOwner_alone still idle]
      exact ⟨rfl, rfl, fun b linked => Function.update_of_ne (unlinked b linked) .., fun _ _ => rfl⟩
    · have differ := unlinked b ((inv'.focus.linked_iff b).mpr member)
      rw [payload, Function.update_of_ne differ]
      exact own b (labels ▸ List.mem_cons_of_mem _ (labels' ▸ member))

theorem closeOwner_keepsTree {st : St α (Timer Unit α)} {now : UInt64} (inv : Inv timerCmp st t)
    (own : SelfOwned st t) : KeepsTree closeOwner now st := by
  intro calls before a base called
  induction called generalizing t with
  | none => exact fun takesOut => (closeOwner_takesOut inv own takesOut).1
  | call first _ ih =>
    obtain ⟨same, t', inv', own'⟩ := closeOwner_takesOut inv own first
    refine ih (inv'.sameLinks same) fun b member => ?_
    rw [same.payload b ((inv'.focus.linked_iff b).mpr member)]
    exact own' b member

/-- Timer `a` is added at the time `a`, and belongs to object `a`. -/
def addOwned (st : St Nat (Timer Unit Nat)) (a : Nat) : St Nat (Timer Unit Nat) :=
  ((addTimer 9 st (.ofNat a) a).toOption.getD (.err, st)).2

def ownedBase : St Nat (Timer Unit Nat) :=
  rbtreeInit (fun _ => some ⟨.black, .null, .null, .null⟩) fun a => makeTimer 0 timerFlagOneshot () a

/-- Timer 2 is at the root, with 1 and 3 below it. -/
def threeOwned : St Nat (Timer Unit Nat) := addOwned (addOwned (addOwned ownedBase 2) 1) 3

theorem threeOwned_run : ∃ added, TimerRun SingleChild threeOwned added := by
  have clear : (timerFlagOneshot &&& timerFlagActive != 0) = false := by decide
  have idle : ∀ a, ¬ Active ownedBase a := fun _ => inactive_of clear
  have start : TimerRun SingleChild ownedBase ownedBase.payload := .create _ _ idle
  have first : TimerRun SingleChild (addOwned ownedBase 2) _ :=
    .add (a := 2) start rfl (idle 2) 2 (.of_add 9 fun _ => rfl)
  have second : TimerRun SingleChild (addOwned (addOwned ownedBase 2) 1) _ :=
    .add (a := 1) first rfl (inactive_of rfl) 1 (.of_add 9 fun _ => rfl)
  exact ⟨_, .add (a := 3) second rfl (inactive_of rfl) 3 (.of_add 9 fun _ => rfl)⟩

/-- At the time 2 the timers 1 and 2 are called and freed by their callbacks, and timer 3 stays. -/
theorem runTimers_fires_due_three :
    ∃ final, Returns (runTimers closeOwner (fun _ => 2) · threeOwned) final ∧
      Called closeOwner 2 threeOwned final.fired final.base ∧
      final.fired.map Fired.target = [(1, (), 1), (2, (), 2)] ∧ InOrder final.base final.base.root [3] := by
  obtain ⟨added, run⟩ := threeOwned_run
  obtain ⟨t, inv, exact⟩ := run.inv
  have walk : InOrder threeOwned threeOwned.root [1, 2, 3] :=
    .node (n := ⟨.black, .node 1, .node 3, .null⟩) rfl
      (.node (n := ⟨.red, .rbnil, .rbnil, .node 2⟩) rfl .leaf .leaf)
      (.node (n := ⟨.red, .rbnil, .rbnil, .node 2⟩) rfl .leaf .leaf)
  have labels : t.labels = [1, 2, 3] := inv.inOrder.unique walk
  have each : ∀ a ∈ t.labels, (threeOwned.payload a).isActive = true ∧ (threeOwned.payload a).data = a ∧
      (threeOwned.payload a).isOneshot = true := by
    intro a member
    rw [labels] at member
    simp only [List.mem_cons, List.not_mem_nil, or_false] at member
    obtain rfl | rfl | rfl := member <;> exact ⟨rfl, rfl, rfl⟩
  have keeps : KeepsTree closeOwner 2 threeOwned :=
    closeOwner_keepsTree inv fun a member => ⟨(each a member).1, (each a member).2.1⟩
  have oneshots : ∀ a, Linked threeOwned a → Active threeOwned a ∧ (threeOwned.payload a).isOneshot = true :=
    fun a linked => ⟨(exact.linked a).mp linked, (each a ((inv.focus.linked_iff a).mp linked)).2.2⟩
  obtain ⟨final, ended, called, targets, -, -, -, -, rest, -⟩ :=
    runTimers_fires_due (fun _ => 2) keeps inv.redBlack walk oneshots
  exact ⟨final, ended, called, targets, rest⟩

end Oneshot

end Cask.Event
