import Cask.Worker.Conns

/-! # The bookkeeping of a worker

`close_connection` is reached from deep inside of every callback, and even from
`accept_connection` before the connection has been counted.  Between two callbacks the list, the
number, the states and the epoll set agree all the same, provided that no timer is taken out of
the tree while its node has two children: `rbtree_delete` then leaves the node of the connection
in the tree, and the connection is freed.
-/

namespace Cask.Conns

open RbTree Event Conn Http Fuel

variable {α σ : Type} [DecidableEq α]

/-! ## The tree of timers -/

section Timers

variable {st : St α (Timer TimerCallback (Option α))} {allocated : α → Prop} {a : α}

/-- The callback of a connection's timer, and the connection. -/
def owner (a : α) : TimerCallback × Option α := (.timeoutCallback, some a)

omit [DecidableEq α] in
theorem makeTimer_idle (a : α) :
    (makeTimer timeout timerFlagOneshot TimerCallback.timeoutCallback (some a)).isActive =
      false := by
  simp only [makeTimer, Timer.isActive]
  decide

omit [DecidableEq α] in
theorem active_iff (owned : Owned owner st allocated) (live : allocated a) :
    Active st a ↔ (st.payload a).isActive = true := by
  obtain ⟨n, found⟩ := (owned.memory a).mpr live
  exact ⟨fun ⟨_, _, set⟩ => set, fun set => ⟨n, found, set⟩⟩

/-- The timer of a connection that was reset at the time `now`. -/
def armed (now : UInt64) (a : α) : Timer TimerCallback (Option α) :=
  (updateTrigger now (makeTimer timeout timerFlagOneshot .timeoutCallback (some a))).setActive

/-- `del_timer` leaves the fields of the other timers alone. -/
theorem delTimer_others {status : Status} {st' : St α (Timer TimerCallback (Option α))}
    (owned : Owned owner st allocated) (live : allocated a) (deletable : Deletable st a)
    (ended : Returns (delTimer · st a) (status, st')) {b : α} (other : b ≠ a) :
    st'.payload b = st.payload b := by
  by_cases active : Active st a
  · obtain ⟨t, added, inv, exact, -⟩ := owned.tree
    obtain ⟨n, found, single⟩ := deletable active
    have member : a ∈ t.labels := (((exact_iff inv).mp exact).1 a).mpr active
    obtain ⟨st₁, -, ended₁, -, -, -, -, payload⟩ :=
      delTimer_active inv active.choose_spec.2 member found single
    cases ended.unique ended₁
    rw [payload, Function.update_of_ne other]
  · cases ended.unique (delTimer_inactive ((owned.memory a).mpr live) active)
    rfl

/-- After `reset_connection` the timer runs from now on, and the others are as before. -/
theorem resetTimer_armed (owned : Owned owner st allocated) (live : allocated a)
    (deletable : Deletable st a) (now : UInt64) :
    ∃ st', Returns (resetTimer · st now a) st' ∧ Owned owner st' allocated ∧
      st'.payload a = armed now a ∧ ∀ b, b ≠ a → st'.payload b = st.payload b := by
  obtain ⟨n, found⟩ := (owned.memory a).mpr live
  have active := active_iff owned live
  -- the timer is out of the tree when it is made anew
  have taken : ∃ st₁, Returns (fun fuel => if (st.payload a).isActive then stopTimer fuel st a else .ok st) st₁ ∧
      Owned owner st₁ allocated ∧ ¬ Active st₁ a ∧ ∀ b, b ≠ a → st₁.payload b = st.payload b := by
    obtain ⟨status, st₁, ended, owned₁, inactive, -⟩ := owned.del live deletable
    cases set : (st.payload a).isActive with
    | true =>
      exact ⟨st₁, ended.map Prod.snd, owned₁, inactive, fun b => delTimer_others owned live deletable ended⟩
    | false =>
      refine ⟨st, .const st, owned, ?_, fun _ _ => rfl⟩
      rw [active, set]
      exact Bool.false_ne_true
  obtain ⟨st₁, ended, owned₁, inactive, others⟩ := taken
  have made :=
    owned₁.write inactive (some zeroNode) (makeTimer_idle a) (iff_of_true live rfl)
    fun _ _ => Iff.rfl
  have idle : ¬ Active { setTimer st₁ a (makeTimer timeout timerFlagOneshot TimerCallback.timeoutCallback (some a)) with
      node := Function.update st₁.node a (some zeroNode) } a := by
    rw [active_iff made live]
    simp [makeTimer_idle]
  have mine : (Function.update st₁.payload a
      (makeTimer timeout timerFlagOneshot TimerCallback.timeoutCallback (some a)) a).target = owner a := by
    rw [Function.update_self]
    rfl
  obtain ⟨st', ended', owned'⟩ := made.add live idle mine now
  have start : (resetTimer · st now a) = fun fuel =>
      (if (st.payload a).isActive then stopTimer fuel st a else .ok st).bind fun st =>
        (addTimer fuel { setTimer st a (makeTimer timeout timerFlagOneshot TimerCallback.timeoutCallback (some a)) with
          node := Function.update st.node a (some zeroNode) } now a).map Prod.snd := by
    funext fuel
    rw [resetTimer, timerAt_ok found, ok_bind]
    split <;> rfl
  -- `add_timer` writes the trigger and the flag
  have payload : st'.payload = Function.update (Function.update st₁.payload a
      (makeTimer timeout timerFlagOneshot TimerCallback.timeoutCallback (some a))) a (armed now a) := by
    obtain ⟨t, added, inv, exact, -⟩ := made.tree
    obtain ⟨n', found'⟩ := (made.memory a).mpr live
    have fresh : a ∉ t.labels := fun member => idle ((((exact_iff inv).mp exact).1 a).mp member)
    obtain ⟨st₂, -, ended₂, -, -, -, payload⟩ :=
      addTimer_active inv now found' (isActive_of_not_active found' idle) fresh
    cases ended'.unique ended₂
    rw [payload]
    simp only [setTimer_payload, Function.update_self, armed]
  refine ⟨st', ?_, owned', ?_, fun b other => ?_⟩
  · rw [start]
    exact ended.bind (ended'.map Prod.snd)
  · rw [payload, Function.update_self]
  · rw [payload, Function.update_of_ne other, Function.update_of_ne other, others b other]

/-- Every timer that the calls take out of the tree has at most one child there. -/
def Apart (a : α) : List TimerCall → List UInt64 → St α (Timer TimerCallback (Option α)) → Prop
  | [], _, _ => True
  | .reset :: calls, times, st =>
    Deletable st a ∧ ∀ st', Returns (resetTimer · st (times.headD 0) a) st' →
      Apart a calls times.tail st'
  | .cancel :: calls, times, st =>
    Deletable st a ∧ ∀ st', Returns (stopTimer · st a) st' → Apart a calls times st'

/-- The timer after some resets at the given times. -/
def rearmed (a : α) (times : List UInt64) (timer : Timer TimerCallback (Option α)) :
    Nat → Timer TimerCallback (Option α)
  | 0 => timer
  | resets + 1 => armed (times.getD resets 0) a

omit [DecidableEq α] in
theorem rearmed_succ (times : List UInt64) (timer : Timer TimerCallback (Option α)) (resets : Nat) :
    rearmed a times.tail (armed (times.headD 0) a) resets = rearmed a times timer (resets + 1) := by
  cases resets with
  | zero => cases times <;> simp [rearmed]
  | succ resets => cases times <;> simp [rearmed]

/-- The calls of a log leave the tree with the timers that are active, a cancelled timer inactive, and a
timer that was only reset armed by the last reset. -/
theorem replay_armed {calls : List TimerCall} {times : List UInt64}
    (owned : Owned owner st allocated) (live : allocated a) (apart : Apart a calls times st) :
    ∃ st', Returns (replay · a calls times st) st' ∧ Owned owner st' allocated ∧
      (calls.getLast? = some .cancel → ¬ Active st' a) ∧
      (∀ resets, calls = List.replicate resets .reset →
        st'.payload a = rearmed a times (st.payload a) resets) ∧
      ∀ b, b ≠ a → st'.payload b = st.payload b := by
  induction calls generalizing times st with
  | nil =>
    refine ⟨st, .const st, owned, by simp, fun resets same => ?_, fun _ _ => rfl⟩
    cases resets with
    | zero => rfl
    | succ resets => cases same
  | cons call calls ih =>
    cases call with
    | reset =>
      obtain ⟨deletable, rest⟩ := apart
      obtain ⟨st₁, ended, owned₁, mine, others⟩ :=
        resetTimer_armed owned live deletable (times.headD 0)
      obtain ⟨st', ended', owned', last, reset, others'⟩ := ih owned₁ (rest st₁ ended)
      refine ⟨st', ended.bind ended', owned', fun cancelled => last ?_, fun resets same => ?_,
        fun b other => (others' b other).trans (others b other)⟩
      · cases calls with
        | nil => cases cancelled
        | cons next calls => rwa [List.getLast?_cons_cons] at cancelled
      · cases resets with
        | zero => cases same
        | succ resets =>
          rw [reset resets (List.cons.inj same).2, mine, rearmed_succ]
    | cancel =>
      obtain ⟨deletable, rest⟩ := apart
      obtain ⟨status, st₁, ended, owned₁, inactive, -⟩ := owned.del live deletable
      have stopped : Returns (stopTimer · st a) st₁ := ended.map Prod.snd
      obtain ⟨st', ended', owned', last, -, others'⟩ := ih owned₁ (rest st₁ stopped)
      have others : ∀ b, b ≠ a → st₁.payload b = st.payload b :=
        fun b => delTimer_others owned live deletable ended
      -- the last call decides whether the timer is active
      refine ⟨st', stopped.bind ended', owned', fun cancelled => ?_, fun resets same => ?_,
        fun b other => (others' b other).trans (others b other)⟩
      · cases calls with
        | nil =>
          cases ended'.unique (.const st₁)
          exact inactive
        | cons next calls =>
          rw [List.getLast?_cons_cons] at cancelled
          exact last cancelled
      · cases resets <;> cases same

theorem owned_replay {calls : List TimerCall} {times : List UInt64}
    (owned : Owned owner st allocated) (live : allocated a) (apart : Apart a calls times st) :
    ∃ st', Returns (replay · a calls times st) st' ∧ Owned owner st' allocated ∧
      (calls.getLast? = some .cancel → ¬ Active st' a) := by
  obtain ⟨st', ended, owned', last, -⟩ := replay_armed owned live apart
  exact ⟨st', ended, owned', last⟩

end Timers

/-! ## The bookkeeping -/

section Bookkeeping

variable {w w' : Worker α σ} {xs : List α} {a : α}

/-- The connections `xs` are those in the list and in memory, each with the entry of its state. -/
structure Tidy (w : Worker α σ) (xs : List α) : Prop where
  circular : CircularList.Circular w.conns xs
  allocated : ∀ a, a ∈ xs ↔ (w.conn a).isSome = true
  listed : ∀ a c, w.conn a = some c → Listed c (w.epoll a)
  unlisted : ∀ a, w.conn a = none → w.epoll a = none
  timers : Owned owner w.timers fun a => (w.conn a).isSome = true

/-- While a callback runs on the connection `a`. -/
structure Busy (w : Worker α σ) (xs : List α) (a : α) : Prop where
  circular : CircularList.Circular w.conns xs
  allocated : ∀ b, b ∈ xs ↔ (w.conn b).isSome = true
  listed : ∀ b c, b ≠ a → w.conn b = some c → Listed c (w.epoll b)
  unlisted : ∀ b, w.conn b = none → w.epoll b = none
  timers : Owned owner w.timers fun b => (w.conn b).isSome = true
  member : a ∈ xs

omit [DecidableEq α] in
theorem Tidy.busy (tidy : Tidy w xs) (member : a ∈ xs) : Busy w xs a :=
  ⟨tidy.circular, tidy.allocated, fun b c _ => tidy.listed b c, tidy.unlisted, tidy.timers, member⟩

omit [DecidableEq α] in
theorem touch_ok (allocated : ∀ b ∈ xs, (w.conn b).isSome = true) {p : CircularList.Ptr α}
    (inside : p ∈ (.head :: xs.map .node : List (CircularList.Ptr α))) : touch w p = .ok () := by
  obtain rfl | inside := List.mem_cons.mp inside
  · rfl
  · obtain ⟨b, member, rfl⟩ := List.mem_map.mp inside
    rw [touch, if_pos (allocated b member)]

/-- `list_del_entry` and `free` on a connection that has no entry and no timer any more. -/
theorem Busy.release (busy : Busy w xs a) (unlisted : w.epoll a = none)
    (inactive : ¬ Active w.timers a) :
    ∃ w', release w a = .ok w' ∧ Tidy w' (xs.erase a) ∧ w'.numConns = w.numConns - 1 := by
  have live := fun b member => (busy.allocated b).mp member
  obtain ⟨before, after⟩ := busy.circular.neighbours busy.member
  have here : (CircularList.Ptr.node a) ∈ (.head :: xs.map .node : List (CircularList.Ptr α)) := by
    simp [busy.member]
  have idle : (w.timers.payload a).isActive = false := by
    by_contra set
    exact inactive ((active_iff busy.timers (live a busy.member)).mpr (by simpa using set))
  refine ⟨forget w a, ?_, ⟨busy.circular.del busy.member, ?_, ?_, ?_, ?_⟩, rfl⟩
  · rw [Conns.release, touch_ok live here, touch_ok live before, touch_ok live after]
    rfl
  · intro b
    rw [busy.circular.distinct.mem_erase_iff, busy.allocated b]
    by_cases equal : b = a <;> simp [forget, equal]
  · intro b c found
    dsimp only [forget] at found ⊢
    by_cases equal : b = a
    · subst equal
      rw [Function.update_self] at found
      cases found
    · rw [Function.update_of_ne equal] at found
      exact busy.listed b c equal found
  · intro b absent
    dsimp only [forget] at absent ⊢
    by_cases equal : b = a
    · rw [equal, unlisted]
    · rw [Function.update_of_ne equal] at absent
      exact busy.unlisted b absent
  · -- only the memory of the timer is given back
    have freed : Owned owner { setTimer w.timers a (w.timers.payload a) with node := Function.update w.timers.node a none }
        fun b => (Function.update w.conn a none b).isSome = true := by
      apply busy.timers.write inactive none idle
      · simp
      · intro b differ
        rw [Function.update_of_ne differ]
    rwa [setTimer, Function.update_eq_self] at freed

/-- By how much the number is ahead of the list. -/
def surplus (w : Worker α σ) (xs : List α) : BitVec 64 := w.numConns - BitVec.ofNat 64 xs.length

/-- The state in front of the last part of `settle`. -/
def applied (w : Worker α σ) (a : α) (timers : St α (Timer TimerCallback (Option α))) (io : Io σ) :
    Worker α σ :=
  { w with timers := timers, epoll := Function.update w.epoll a io.interest, app := io.app }

theorem Busy.applied {timers : St α (Timer TimerCallback (Option α))} (busy : Busy w xs a)
    (owned : Owned owner timers fun b => (w.conn b).isSome = true) (io : Io σ) :
    Busy (applied w a timers io) xs a := by
  refine ⟨busy.circular, busy.allocated, ?_, ?_, owned, busy.member⟩
  · intro b c differ found
    have same : (Conns.applied w a timers io).epoll b = w.epoll b := Function.update_of_ne differ ..
    rw [same]
    exact busy.listed b c differ found
  · intro b absent
    have differ : b ≠ a := by
      rintro rfl
      have live := (busy.allocated b).mp busy.member
      rw [show w.conn b = none from absent] at live
      cases live
    have same : (Conns.applied w a timers io).epoll b = w.epoll b := Function.update_of_ne differ ..
    rw [same]
    exact busy.unlisted b absent

/-- The connection goes on, with the entry that goes with its state. -/
theorem Busy.keep (busy : Busy w xs a) {c : Connection} (listed : Listed c (w.epoll a)) :
    Tidy { w with conn := Function.update w.conn a (some c) } xs := by
  have same : ∀ b, (Function.update w.conn a (some c) b).isSome = (w.conn b).isSome := by
    intro b
    by_cases equal : b = a
    · rw [equal, Function.update_self, (busy.allocated a).mp busy.member]
      rfl
    · rw [Function.update_of_ne equal]
  refine ⟨busy.circular, fun b => ?_, fun b c' found => ?_, fun b absent => ?_, ?_⟩
  · rw [same b]
    exact busy.allocated b
  · dsimp only at found ⊢
    by_cases equal : b = a
    · rw [equal, Function.update_self] at found
      cases found
      rw [equal]
      exact listed
    · rw [Function.update_of_ne equal] at found
      exact busy.listed b c' equal found
  · dsimp only at absent ⊢
    by_cases equal : b = a
    · rw [equal, Function.update_self] at absent
      cases absent
    · rw [Function.update_of_ne equal] at absent
      exact busy.unlisted b absent
  · simp only [same]
    exact busy.timers

/-- A callback that leaves its connection listed or closed leaves the worker tidy. -/
theorem Busy.settle {times : List UInt64} {result : Option Connection × Io σ} (busy : Busy w xs a)
    (settled : Settled [] result) (apart : Apart a result.2.timer times w.timers) :
    ∃ w' xs', Returns (settle · w a times result) w' ∧ Tidy w' xs' ∧
      surplus w' xs' = surplus w xs := by
  have live := (busy.allocated a).mp busy.member
  obtain ⟨timers, replayed, owned, last⟩ := owned_replay busy.timers live apart
  have busy' := busy.applied owned result.2
  unfold Conns.settle
  have entry : (Conns.applied w a timers result.2).epoll a = result.2.interest :=
    Function.update_self ..
  cases conn : result.1 with
  | some c =>
    -- the connection stays open
    obtain ⟨listed, -⟩ := settled.listed c conn
    rw [← entry] at listed
    exact ⟨_, xs, replayed.bind (.const _), busy'.keep listed, rfl⟩
  | none =>
    -- it was closed: the last call on its timer cancelled it
    obtain ⟨interest, resets, log⟩ := settled.closed conn
    rw [← entry] at interest
    have inactive : ¬ Active timers a := last (by simp [log])
    obtain ⟨w', released, tidy, number⟩ := busy'.release interest inactive
    have ended : Returns (fun _ : Nat => Conns.release (Conns.applied w a timers result.2) a) w' := by
      rw [released]
      exact .const w'
    refine ⟨w', xs.erase a, replayed.bind ended, tidy, ?_⟩
    rw [surplus, surplus, number, List.length_erase_of_mem busy.member]
    have positive := List.length_pos_of_mem busy.member
    obtain ⟨n, length⟩ : ∃ n, xs.length = n + 1 := ⟨xs.length - 1, by omega⟩
    have same : (Conns.applied w a timers result.2).numConns = w.numConns := rfl
    rw [length, Nat.add_sub_cancel, BitVec.ofNat_add, same]
    generalize BitVec.ofNat 64 n = k
    bv_omega

/-- A new connection at the end of the list, without an entry yet. -/
theorem Tidy.enlist (tidy : Tidy w xs) (free : w.conn a = none) :
    enlist w a = .ok (enrol w a) ∧ Busy (enrol w a) (xs ++ [a]) a := by
  have absent : a ∉ xs := by
    rw [tidy.allocated a, free]
    exact Bool.false_ne_true
  have inactive : ¬ Active w.timers a := by
    rintro ⟨n, found, -⟩
    have live := (tidy.timers.memory a).mp ⟨n, found⟩
    rw [free] at live
    cases live
  constructor
  · rw [Conns.enlist,
      touch_ok (fun b member => (tidy.allocated b).mp member) tidy.circular.last_mem]
    rfl
  · refine ⟨tidy.circular.addTail absent, fun b => ?_, fun b c differ found => ?_, fun b none => ?_,
      ?_, by simp⟩
    · rw [List.mem_append, tidy.allocated b, List.mem_singleton]
      by_cases equal : b = a <;> simp [enrol, equal]
    · dsimp only [enrol] at found ⊢
      rw [Function.update_of_ne differ] at found
      exact tidy.listed b c found
    · dsimp only [enrol] at none ⊢
      by_cases equal : b = a
      · rw [equal, Function.update_self] at none
        cases none
      · rw [Function.update_of_ne equal] at none
        exact tidy.unlisted b none
    · have idle : (zeroTimer : Timer TimerCallback (Option α)).isActive = false := by
        simp [zeroTimer, Timer.isActive]
      apply tidy.timers.write inactive (some zeroNode) idle
      · simp [enrol]
      · intro b differ
        simp [enrol, differ]

theorem surplus_enrol : surplus (enrol w a) (xs ++ [a]) = surplus w xs - 1 := by
  have same : (enrol w a).numConns = w.numConns := rfl
  rw [surplus, surplus, same, List.length_append, BitVec.ofNat_add, List.length_singleton]
  generalize BitVec.ofNat 64 xs.length = k
  bv_omega

/-- `on_accept` counts the connection even if `begin_read` has closed it, which then has uncounted it. -/
theorem Tidy.onAccept {events : Events} {accepting : Accepting α} {o : Outcomes} (tidy : Tidy w xs)
    (count : surplus w xs = 0) (free : ∀ a, accepting.calloc = some a → w.conn a = none)
    (apart : ∀ a, accepting.calloc = some a →
      Apart a (beginRead fresh ((enrol w a).io a o)).2.timer o.times (enrol w a).timers) :
    ∃ w' xs', Returns (onAccept · w events accepting o) w' ∧ Tidy w' xs' ∧ surplus w' xs' = 0 := by
  obtain ⟨accept, fcntl, calloc, createBuffer⟩ := accepting
  have unchanged : (Conns.onAccept · w events ⟨accept, fcntl, calloc, createBuffer⟩ o) = (fun _ => .ok w) →
      ∃ w' xs', Returns (Conns.onAccept · w events ⟨accept, fcntl, calloc, createBuffer⟩ o) w' ∧
      Tidy w' xs' ∧
        surplus w' xs' = 0 := by
    intro same
    rw [same]
    exact ⟨w, xs, .const w, tidy, count⟩
  cases reported : events.epollin with
  | false =>
    apply unchanged
    funext fuel
    simp [Conns.onAccept, reported]
  | true =>
    -- a call that fails before the connection exists changes nothing
    have refused : ∀ fuel, acceptConnection fuel w ⟨accept, fcntl, calloc, createBuffer⟩ o = .ok (.err, w) →
        Conns.onAccept fuel w events ⟨accept, fcntl, calloc, createBuffer⟩ o = .ok w := by
      intro fuel failed
      rw [Conns.onAccept, if_pos reported, failed]
      rfl
    cases accept with
    | false => exact unchanged (funext fun fuel => refused fuel rfl)
    | true =>
    cases fcntl with
    | false => exact unchanged (funext fun fuel => refused fuel rfl)
    | true =>
    cases calloc with
    | none => exact unchanged (funext fun fuel => refused fuel rfl)
    | some a =>
    cases createBuffer with
    | false => exact unchanged (funext fun fuel => refused fuel rfl)
    | true =>
      -- the connection is listed first and counted last
      obtain ⟨enlisted, busy⟩ := tidy.enlist (free a rfl)
      obtain ⟨w', xs', ended, tidy', same⟩ :=
        busy.settle (beginRead_settled fresh rfl) (apart a rfl)
      have start : (Conns.onAccept · w events ⟨true, true, some a, true⟩ o) = fun fuel =>
          (Conns.settle fuel (enrol w a) a o.times (beginRead fresh ((enrol w a).io a o))).bind fun w' =>
            .ok { w' with numConns := w'.numConns + 1 } := by
        funext fuel
        rw [Conns.onAccept, if_pos reported, acceptConnection]
        simp only [enlisted, ok_bind]
        cases Conns.settle fuel (enrol w a) a o.times (beginRead fresh ((enrol w a).io a o)) <;> rfl
      rw [start]
      refine ⟨{ w' with numConns := w'.numConns + 1 }, xs', ended.bind (.const _), ?_, ?_⟩
      · exact ⟨tidy'.circular, tidy'.allocated, tidy'.listed, tidy'.unlisted, tidy'.timers⟩
      · rw [surplus_enrol, count] at same
        rw [surplus] at same ⊢
        dsimp only
        bv_omega

theorem Tidy.timeoutCallback {o : Outcomes} (tidy : Tidy w xs) (count : surplus w xs = 0)
    (member : a ∈ xs) (deletable : Deletable w.timers a) :
    ∃ w' xs', Returns (timeoutCallback · w a o) w' ∧ Tidy w' xs' ∧ surplus w' xs' = 0 := by
  have log : (closeConnection (w.io a o)).2.timer = [.cancel] := by
    simp [closeConnection, delEvent_timer, Worker.io]
  have apart : Apart a (closeConnection (w.io a o)).2.timer o.times w.timers := by
    rw [log]
    exact ⟨deletable, fun _ _ => trivial⟩
  obtain ⟨w', xs', ended, tidy', same⟩ :=
    (tidy.busy member).settle (closeConnection_settled rfl) apart
  have here : (CircularList.Ptr.node a) ∈ (.head :: xs.map .node : List (CircularList.Ptr α)) := by
    simp [member]
  refine ⟨w', xs', ?_, tidy', same.trans count⟩
  have start : (Conns.timeoutCallback · w a o) = (Conns.settle · w a o.times (closeConnection (w.io a o))) := by
    funext fuel
    rw [Conns.timeoutCallback, touch_ok (fun b inside => (tidy.allocated b).mp inside) here]
    rfl
  rw [start]
  exact ended

/-- With the timer taken out before, `close_connection` finds it inactive. -/
theorem Tidy.expire {o : Outcomes} (tidy : Tidy w xs) (count : surplus w xs = 0)
    (active : Active w.timers a) (deletable : Deletable w.timers a) :
    ∃ w' xs', Returns (expire · w a o) w' ∧ Tidy w' xs' ∧ surplus w' xs' = 0 := by
  have live : (w.conn a).isSome = true := (tidy.timers.memory a).mp ⟨_, active.choose_spec.1⟩
  obtain ⟨status, timers, ended, owned, inactive, target⟩ := tidy.timers.del live deletable
  rw [tidy.timers.target active] at target
  have tidy₁ : Tidy { w with timers := timers } xs :=
    ⟨tidy.circular, tidy.allocated, tidy.listed, tidy.unlisted, owned⟩
  obtain ⟨w', xs', ended', tidy', same⟩ :=
    tidy₁.timeoutCallback (o := o) count ((tidy.allocated a).mpr live)
      fun set => absurd set inactive
  obtain ⟨n, found⟩ := (owned.memory a).mpr live
  refine ⟨w', xs', ?_, tidy', same⟩
  have stopped : Returns (stopTimer · w.timers a) timers := ended.map Prod.snd
  unfold Conns.expire
  refine stopped.bind ?_
  -- the callback of the timer is the one of its own connection
  simp only [timerAt_ok found, ok_bind, target, owner]
  exact ended'

theorem Tidy.ioCallback {callback : Callback σ} {o : Outcomes} {events : Events} {c : Connection}
    {result : Option Connection × Io σ} (tidy : Tidy w xs) (count : surplus w xs = 0)
    (found : w.conn a = some c) (clear : NoBlankSend callback c (w.io a o))
    (ended : Returns (Conn.ioCallback callback · events c (w.io a o)) result)
    (apart : Apart a result.2.timer o.times w.timers) :
    ∃ w' xs', Returns (ioCallback callback · w a events o) w' ∧ Tidy w' xs' ∧
      surplus w' xs' = 0 := by
  have member : a ∈ xs := by
    rw [tidy.allocated a, found]
    rfl
  have settled : Settled [] result := by
    obtain ⟨enough, ended⟩ := ended
    exact ioCallback_settled (tidy.listed a c found) rfl clear (ended enough (Nat.le_refl _))
  obtain ⟨w', xs', done, tidy', same⟩ := (tidy.busy member).settle settled apart
  refine ⟨w', xs', ?_, tidy', same.trans count⟩
  obtain ⟨enough, ended⟩ := ended
  obtain ⟨enough', done⟩ := done
  refine ⟨max enough enough', fun fuel bound => ?_⟩
  have first := ended fuel (by omega)
  have second := done fuel (by omega)
  dsimp only at first second
  simp only [Conns.ioCallback, found, first, second, Except.mapError]

end Bookkeeping

/-! ## Runs -/

section Runs

variable {callback : Callback σ} {w w' : Worker α σ} {call : Call α} {o : Outcomes}

/-- What can happen next: `calloc` gives memory that is not in use, `epoll_wait` reports a descriptor
that is registered, and timers are those of open connections. -/
def Possible (w : Worker α σ) : Call α → Prop
  | .accept _ accepting => ∀ a, accepting.calloc = some a → w.conn a = none
  | .io a _ => w.epoll a ≠ none
  | .timeout a => w.conn a ≠ none
  | .expire a => Active w.timers a

/-- The callback takes no timer out of the tree whose node has two children, and does not block on an
empty response. -/
def Meets (callback : Callback σ) (w : Worker α σ) (o : Outcomes) : Call α → Prop
  | .accept _ accepting => ∀ a, accepting.calloc = some a →
    Apart a (beginRead fresh ((enrol w a).io a o)).2.timer o.times (enrol w a).timers
  | .io a events => ∀ c, w.conn a = some c → NoBlankSend callback c (w.io a o) ∧
    ∀ result, Returns (Conn.ioCallback callback · events c (w.io a o)) result →
    Apart a result.2.timer o.times w.timers
  | .timeout a => Deletable w.timers a
  | .expire a => Deletable w.timers a

/-- The code of the connection comes to an end. -/
def Ends (callback : Callback σ) (w : Worker α σ) (o : Outcomes) : Call α → Prop
  | .accept _ _ => True
  | .io a events => ∀ c, w.conn a = some c → ∃ result,
      Returns (Conn.ioCallback callback · events c (w.io a o)) result
  | .timeout _ => True
  | .expire _ => True

/-- The worker between two callbacks, when all callbacks so far were `allowed`. -/
inductive Run (callback : Callback σ) (allowed : Worker α σ → Outcomes → Call α → Prop) : Worker α σ → Prop where
  | start (app : σ) : Run callback allowed (created app)
  | step {w w' : Worker α σ} (call : Call α) (o : Outcomes) (run : Run callback allowed w) (possible : Possible w call)
      (meets : allowed w o call) (ended : Returns (handle callback · w call o) w') : Run callback allowed w'

omit [DecidableEq α] in
theorem tidy_created (app : σ) : Tidy (created app : Worker α σ) [] := by
  have empty : Inv timerCmp (created app : Worker α σ).timers .nil := inv_init _ _
  have inactive : ∀ a, ¬ Active (created app : Worker α σ).timers a :=
    fun a active => by cases active.choose_spec.1
  have exact : Exact (created app : Worker α σ).timers
    fun a => makeTimer timeout timerFlagOneshot .timeoutCallback (some a) :=
    (exact_iff empty).mpr ⟨fun a => iff_of_false (by simp [ColorTree.Bintree.labels]) (inactive a),
      fun a active => absurd active (inactive a)⟩
  refine ⟨CircularList.circular_init, fun a => ?_, fun a c found => ?_, fun _ _ => rfl,
    ⟨⟨_, _, empty, exact, ?_⟩, fun a => ?_⟩⟩
  · simp [created]
  · cases found
  · exact fun _ => rfl
  · -- no memory is in use yet
    constructor
    · rintro ⟨n, found⟩
      cases found
    · simp [created]

/-- One callback. -/
theorem Tidy.handle {xs : List α} (tidy : Tidy w xs) (count : surplus w xs = 0)
    (possible : Possible w call) (meets : Meets callback w o call) (ends : Ends callback w o call) :
    ∃ w' xs', Returns (handle callback · w call o) w' ∧ Tidy w' xs' ∧ surplus w' xs' = 0 := by
  cases call with
  | accept events accepting =>
    obtain ⟨w', xs', ended, rest⟩ := tidy.onAccept count possible meets
    exact ⟨w', xs', ended.mapError _, rest⟩
  | io a events =>
    cases found : w.conn a with
    | none => exact absurd (tidy.unlisted a found) possible
    | some c =>
      obtain ⟨result, ended⟩ := ends c found
      obtain ⟨clear, apart⟩ := meets c found
      exact tidy.ioCallback count found clear ended (apart result ended)
  | timeout a =>
    obtain ⟨w', xs', ended, rest⟩ :=
      tidy.timeoutCallback count ((tidy.allocated a).mpr (Option.isSome_iff_ne_none.mpr possible)) meets
    exact ⟨w', xs', ended.mapError _, rest⟩
  | expire a =>
    obtain ⟨w', xs', ended, rest⟩ := tidy.expire count possible meets
    exact ⟨w', xs', ended.mapError _, rest⟩

/-- A callback that has returned had its connection's code come to an end. -/
theorem ends_of_returns (ended : Returns (handle callback · w call o) w') :
    Ends callback w o call := by
  cases call with
  | io a events =>
    intro c found
    obtain ⟨enough, ended⟩ := ended
    have last := ended enough (Nat.le_refl _)
    simp only [handle, ioCallback, found] at last
    cases done : Conn.ioCallback callback enough events c (w.io a o) with
    | error stuck =>
      rw [done] at last
      cases last
    | ok result => exact ⟨result, ioCallback_returns done⟩
  | accept => trivial
  | timeout => trivial
  | expire => trivial

theorem Run.tidy (run : Run callback (Meets callback) w) : ∃ xs, Tidy w xs ∧ surplus w xs = 0 := by
  induction run with
  | start app => exact ⟨[], tidy_created app, by simp [surplus, created]⟩
  | step _ _ _ possible meets ended ih =>
    obtain ⟨xs, tidy, count⟩ := ih
    obtain ⟨w₁, xs₁, ended₁, tidy₁, count₁⟩ :=
      tidy.handle count possible meets (ends_of_returns ended)
    cases ended.unique ended₁
    exact ⟨xs₁, tidy₁, count₁⟩

/-- The list and the number of a worker's connections, and the state and the entry of each of them. -/
structure Consistent (w : Worker α σ) (xs : List α) : Prop where
  circular : CircularList.Circular w.conns xs
  number : w.numConns = BitVec.ofNat 64 xs.length
  allocated : ∀ a, a ∈ xs ↔ (w.conn a).isSome = true
  listed : ∀ a c, w.conn a = some c → Listed c (w.epoll a)
  unlisted : ∀ a, w.conn a = none → w.epoll a = none

/-- In every run whose callbacks meet the condition, the bookkeeping is right between any two
callbacks, and no callback that meets it touches a connection that has been closed: it returns,
unless its connection's code does not come to an end. -/
theorem conns_consistent (run : Run callback (Meets callback) w) : (∃ xs, Consistent w xs) ∧
    ∀ call o, Possible w call → Meets callback w o call → Ends callback w o call →
      ∃ w', Returns (handle callback · w call o) w' := by
  obtain ⟨xs, tidy, count⟩ := run.tidy
  refine ⟨⟨xs, tidy.circular, ?_, tidy.allocated, tidy.listed, tidy.unlisted⟩,
    fun call o possible meets ends => ?_⟩
  · rw [surplus] at count
    generalize BitVec.ofNat 64 xs.length = k at count ⊢
    bv_omega
  · obtain ⟨w', xs', ended, -⟩ := tidy.handle count possible meets ends
    exact ⟨w', ended⟩

/-! ### Three clients -/

/-- A server without routes. -/
def notFound : Callback Unit := fun app _ _ => (.status404, [], app)

/-- A client arrives at the time `now` and gets the address `a`. -/
def arrival (a : Nat) : Call Nat := .accept ⟨true, false⟩ ⟨true, true, some a, true⟩

def atTime (now : UInt64) : Outcomes := ⟨[], [], [], [], [now]⟩

/-- The peer has closed its end. -/
def hangup : Outcomes := ⟨[.closed], [], [], [], []⟩

def after (w : Worker Nat Unit) (call : Call Nat) (o : Outcomes) : Worker Nat Unit :=
  (handle notFound 9 w call o).toOption.getD w

def oneClient : Worker Nat Unit := after (created ()) (arrival 1) (atTime 1)

def twoClients : Worker Nat Unit := after oneClient (arrival 2) (atTime 2)

/-- The timer of the second client is at the root, between the other two. -/
def threeClients : Worker Nat Unit := after twoClients (arrival 3) (atTime 3)

/-- The timer of a new connection is not in the tree. -/
theorem meets_arrival {w : Worker Nat Unit} {a : Nat} (now : UInt64) (unlisted : w.epoll a = none) :
    Meets notFound w (atTime now) (arrival a) := by
  intro b same
  cases same
  have log : (beginRead fresh ((enrol w a).io a (atTime now))).2.timer = [.reset] := by
    simp [beginRead, resetConnection, connectionTimer_inactive, fresh, addEvent, Worker.io, enrol, atTime, unlisted]
  rw [log]
  refine ⟨fun active => absurd active (inactive_of ?_), fun _ _ => trivial⟩
  simp [enrol, setTimer]
  rfl

/-- The event of a client that hangs up before it has sent anything. -/
theorem hangup_closes (w : Worker Nat Unit) (a : Nat) : ∃ io', io'.timer = [] ∧ Returns
    (Conn.ioCallback notFound · ⟨true, false⟩ { fresh with eventActive := true } (w.io a hangup)) (closeConnection io') := by
  have closed : (w.io a hangup).recvs = [.closed] := rfl
  exact ioCallback_hangup notFound rfl rfl closed

theorem run_twoClients : Run notFound (Meets notFound) twoClients := by
  have first : Run notFound (Meets notFound) oneClient :=
    .step (arrival 1) (atTime 1) (.start ()) (fun _ _ => rfl) (meets_arrival 1 rfl) (.of_add 9 fun _ => rfl)
  exact .step (arrival 2) (atTime 2) first (fun a same => by cases same; rfl) (meets_arrival 2 rfl) (.of_add 9 fun _ => rfl)

/-- The first of two clients hangs up, and then the timer of the other one runs out. -/
theorem conns_consistent_two : (after twoClients (.io 1 ⟨true, false⟩) hangup).numConns = 1 ∧
    (∃ xs, Consistent (after twoClients (.io 1 ⟨true, false⟩) hangup) xs) ∧
    ∃ w, Returns (handle notFound · (after twoClients (.io 1 ⟨true, false⟩) hangup) (.expire 2) hangup) w := by
  have upper : twoClients.timers.node 1 = some ⟨.black, .rbnil, .node 2, .null⟩ := rfl
  have meets : Meets notFound twoClients hangup (.io 1 ⟨true, false⟩) := by
    intro c found
    have same : some { fresh with eventActive := true } = some c := found
    cases same
    have closed : (twoClients.io 1 hangup).recvs = [.closed] := rfl
    refine ⟨noBlankSend_hangup closed, fun result ended => ?_⟩
    obtain ⟨io', log, closes⟩ := hangup_closes twoClients 1
    cases ended.unique closes
    have calls : (closeConnection io').2.timer = [.cancel] := by simp [closeConnection, delEvent_timer, log]
    rw [calls]
    exact ⟨fun _ => ⟨_, upper, .inl rfl⟩, fun _ _ => trivial⟩
  have run : Run notFound (Meets notFound) (after twoClients (.io 1 ⟨true, false⟩) hangup) :=
    .step (.io 1 ⟨true, false⟩) hangup run_twoClients (fun none => by cases none) meets (.of_add 9 fun _ => rfl)
  obtain ⟨consistent, returns⟩ := conns_consistent run
  have root : (after twoClients (.io 1 ⟨true, false⟩) hangup).timers.node 2 =
      some ⟨.black, .rbnil, .rbnil, .null⟩ := rfl
  exact ⟨rfl, consistent, returns (.expire 2) hangup ⟨_, root, rfl⟩ (fun _ => ⟨_, root, .inl rfl⟩) trivial⟩

/-- The second of three clients hangs up.  Its timer had two children, so that the node stays linked
when the connection is freed; the next client that hangs up makes the worker read it. -/
theorem not_conns_consistent_three : ¬ ∀ w : Worker Nat Unit, Run notFound (fun _ _ _ => True) w →
    (∃ xs, Consistent w xs) ∧ ∀ call o, Possible w call → Ends notFound w o call →
      ∃ w', Returns (handle notFound · w call o) w' := by
  intro claim
  have accepted : Run notFound (fun _ _ _ => True) threeClients := by
    have first : Run notFound (fun _ _ _ => True) oneClient :=
      .step (arrival 1) (atTime 1) (.start ()) (fun _ _ => rfl) trivial (.of_add 9 fun _ => rfl)
    have second : Run notFound (fun _ _ _ => True) twoClients :=
      .step (arrival 2) (atTime 2) first (fun a same => by cases same; rfl) trivial (.of_add 9 fun _ => rfl)
    exact .step (arrival 3) (atTime 3) second (fun a same => by cases same; rfl) trivial (.of_add 9 fun _ => rfl)
  have left : Run notFound (fun _ _ _ => True) (after threeClients (.io 2 ⟨true, false⟩) hangup) :=
    .step (.io 2 ⟨true, false⟩) hangup accepted (fun none => nomatch none) trivial (.of_add 9 fun _ => rfl)
  have ends : Ends notFound (after threeClients (.io 2 ⟨true, false⟩) hangup) hangup (.io 1 ⟨true, false⟩) := by
    intro c found
    have same : some { fresh with eventActive := true } = some c := found
    cases same
    obtain ⟨io', -, closes⟩ := hangup_closes (after threeClients (.io 2 ⟨true, false⟩) hangup) 1
    exact ⟨_, closes⟩
  obtain ⟨w', enough, ended⟩ :=
    (claim _ left).2 (.io 1 ⟨true, false⟩) hangup (fun none => nomatch none) ends
  have faults : ∀ more, handle notFound (more + 9) (after threeClients (.io 2 ⟨true, false⟩) hangup)
      (.io 1 ⟨true, false⟩) hangup = .error (.fault .notAllocated) := fun _ => rfl
  have both := (faults enough).symm.trans (ended (enough + 9) (Nat.le_add_right ..))
  cases both

end Runs

end Cask.Conns
