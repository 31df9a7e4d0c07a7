import Cask.Worker.Deadlines
import Mathlib.Data.List.Perm.Subperm
import Mathlib.Data.List.Permutation

/-! # The event loop of a worker

`event_base_iter` runs the timers that are due and then hands out what `epoll_wait` reports.  A
callback may close its connection while the rest of the batch is still to be handed out.
-/

namespace Cask.Conns

open RbTree Event Conn Http Fuel

variable {α σ : Type} [DecidableEq α]

/-! ## Timers -/

/-- The state of the loop of `run_timers`: how often the clock was read, and whose timers have fired. -/
structure Firing (α σ : Type) where
  worker : Worker α σ
  readings : Nat
  fired : List α

/-- `t->cb(t->data)`, where `t` is the timer of `a`. -/
def callTimer (fuel : Nat) (w : Worker α σ) (a : α) (o : Outcomes) : Except Fault (Worker α σ) := do
  let timer ← timerAt w.timers a
  match timer.target with
  | (TimerCallback.timeoutCallback, some b) => timeoutCallback fuel w b o
  | _ => .error .nullDeref

/-- The body of the loop for the leftmost timer, the one of `a`; the loop was entered at the time
`clock 0`. -/
def visitTimer (clock : Nat → UInt64) (outcomes : Nat → Outcomes) (fuel : Nat) (s : Firing α σ) (a : α) :
    Except Fault (Next (Firing α σ) (Firing α σ)) := do
  let timer ← timerAt s.worker.timers a
  if timer.trigger ≤ clock 0 then
    if timer.isActive then
      if timer.isOneshot then
        let timers ← stopTimer fuel s.worker.timers a
        let w ← callTimer fuel { s.worker with timers := timers } a (outcomes s.fired.length)
        return .again ⟨w, s.readings, s.fired ++ [a]⟩
      else
        let timers := setTimer s.worker.timers a (updateTrigger (clock s.readings) timer)
        let w ← callTimer fuel { s.worker with timers := timers } a (outcomes s.fired.length)
        return .again ⟨w, s.readings + 1, s.fired ++ [a]⟩
    else
      let timers ← stopTimer fuel s.worker.timers a
      return .again { s with worker := { s.worker with timers := timers } }
  else return .done s

def runTimersStep (clock : Nat → UInt64) (outcomes : Nat → Outcomes) (fuel : Nat) (s : Firing α σ) :
    Except Fault (Next (Firing α σ) (Firing α σ)) := do
  match ← rbtreeLeftmost fuel s.worker.timers s.worker.timers.root with
  | .null => return .done s
  | .rbnil => throw .notAllocated
  | .node a => visitTimer clock outcomes fuel s a

/-- `run_timers(base)` -/
def runTimers (clock : Nat → UInt64) (outcomes : Nat → Outcomes) (fuel : Nat) (w : Worker α σ) :
    Except Fault (Firing α σ) :=
  loop .fuel (runTimersStep clock outcomes fuel) fuel ⟨w, 1, []⟩

/-! ### The timers alone -/

/-- `timeout_callback` as the timers see it: `close_connection` calls `del_timer`, and `free` takes the timer
with its connection. -/
def closeTimer (fuel : Nat) : TimerCallback → Option α → St α (Timer TimerCallback (Option α)) →
    St α (Timer TimerCallback (Option α))
  | .timeoutCallback, some a, timers =>
    let timers := (stopTimer fuel timers a).toOption.getD timers
    { timers with node := Function.update timers.node a none }
  | _, _, timers => timers

section Alone

variable {w w' : Worker α σ} {a : α} {o : Outcomes} {s : Firing α σ} {clock : Nat → UInt64}
  {outcomes : Nat → Outcomes} {fuel : Nat} {t : Running α TimerCallback (Option α)}

theorem stopTimer_ok {timers timers' : St α (Timer TimerCallback (Option α))}
    (stopped : stopTimer fuel timers a = .ok timers') : ∃ status, delTimer fuel timers a = .ok (status, timers') := by
  rw [stopTimer] at stopped
  cases deleted : delTimer fuel timers a with
  | error e =>
    rw [deleted] at stopped
    cases stopped
  | ok result =>
    rw [deleted] at stopped
    cases stopped
    exact ⟨result.1, rfl⟩

theorem timeoutCallback_timers (ended : timeoutCallback fuel w a o = .ok w') :
    w'.timers = closeTimer fuel .timeoutCallback (some a) w.timers := by
  obtain ⟨-, -, settled⟩ := bind_ok ended
  obtain ⟨timers, replayed, released⟩ := bind_ok settled
  rw [closeConnection_log] at replayed
  obtain ⟨stopped, stop, last⟩ := bind_ok replayed
  cases last
  obtain ⟨-, -, released⟩ := bind_ok released
  obtain ⟨-, -, released⟩ := bind_ok released
  obtain ⟨-, -, released⟩ := bind_ok released
  cases released
  simp [forget, closeTimer, stop, Except.toOption]

theorem callTimer_timers (ended : callTimer fuel w a o = .ok w') :
    ∃ timer, timerAt w.timers a = .ok timer ∧ w'.timers = closeTimer fuel timer.cb timer.data w.timers := by
  obtain ⟨timer, found, called⟩ := bind_ok ended
  refine ⟨timer, found, ?_⟩
  split at called
  · next b target =>
    obtain ⟨cb, data⟩ := Prod.mk.inj target
    rw [cb, data]
    exact timeoutCallback_timers called
  · cases called

/-- The loop on the timers alone has come as far as the one of the worker. -/
structure Tracks (s : Firing α σ) (t : Running α TimerCallback (Option α)) : Prop where
  base : t.base = s.worker.timers
  readings : t.readings = s.readings
  fired : t.fired.map Fired.timer = s.fired

theorem Tracks.call (tracks : Tracks s t) (called : callTimer fuel s.worker a o = .ok w') :
    ∃ t', fire (closeTimer fuel) t a = .ok t' ∧ Tracks ⟨w', s.readings, s.fired ++ [a]⟩ t' := by
  obtain ⟨timer, found, timers⟩ := callTimer_timers called
  rw [← tracks.base] at found timers
  refine ⟨⟨closeTimer fuel timer.cb timer.data t.base, t.readings, t.fired ++ [⟨a, timer.cb, timer.data, t.base⟩]⟩,
    by rw [fire, found, ok_bind, pure_ok], timers.symm, tracks.readings, ?_⟩
  rw [List.map_append, tracks.fired]
  rfl

/-- A round of the loop of the worker is one of the loop on the timers alone. -/
theorem Tracks.visit {next : Next (Firing α σ) (Firing α σ)} (tracks : Tracks s t)
    (visited : visitTimer clock outcomes fuel s a = .ok next) :
    ∃ next', Event.visitTimer (closeTimer fuel) clock fuel t a = .ok next' ∧
      next.Follows Tracks Tracks next' := by
  obtain ⟨base, readings, fired⟩ := tracks
  obtain ⟨timer, found, visited⟩ := bind_ok visited
  simp only [Event.visitTimer, base, found, ok_bind, readings]
  by_cases due : timer.trigger ≤ clock 0
  · rw [if_pos due] at visited ⊢
    cases active : timer.isActive with
    | false =>
      simp only [active, Bool.false_eq_true, if_false] at visited ⊢
      obtain ⟨timers, stopped, last⟩ := bind_ok visited
      obtain ⟨status, deleted⟩ := stopTimer_ok stopped
      cases last
      simp only [deleted, ok_bind]
      exact ⟨_, rfl, .again ⟨rfl, rfl, fired⟩⟩
    | true =>
      cases oneshot : timer.isOneshot with
      | true =>
        simp only [active, oneshot, if_true] at visited ⊢
        obtain ⟨timers, stopped, rest⟩ := bind_ok visited
        obtain ⟨status, deleted⟩ := stopTimer_ok stopped
        obtain ⟨w, called, last⟩ := bind_ok rest
        cases last
        have taken : Tracks ⟨{ s.worker with timers := timers }, s.readings, s.fired⟩ ⟨timers, s.readings, t.fired⟩ :=
          ⟨rfl, rfl, fired⟩
        obtain ⟨t', fires, tracks⟩ := taken.call called
        simp only [deleted, ok_bind, fires]
        exact ⟨_, rfl, .again tracks⟩
      | false =>
        simp only [active, oneshot, Bool.false_eq_true, if_true, if_false] at visited ⊢
        obtain ⟨w, called, last⟩ := bind_ok visited
        cases last
        have again : Tracks ⟨{ s.worker with timers := setTimer s.worker.timers a (updateTrigger (clock s.readings) timer) },
            s.readings + 1, s.fired⟩
            ⟨setTimer s.worker.timers a (updateTrigger (clock s.readings) timer), s.readings + 1, t.fired⟩ :=
          ⟨rfl, rfl, fired⟩
        obtain ⟨t', fires, tracks⟩ := again.call called
        simp only [fires, ok_bind]
        exact ⟨_, rfl, .again tracks⟩
  · rw [if_neg due] at visited ⊢
    cases visited
    exact ⟨_, rfl, .done ⟨base, readings, fired⟩⟩

theorem Tracks.step {next : Next (Firing α σ) (Firing α σ)} (tracks : Tracks s t)
    (stepped : runTimersStep clock outcomes fuel s = .ok next) :
    ∃ next', Event.runTimersStep (closeTimer fuel) clock fuel t = .ok next' ∧
      next.Follows Tracks Tracks next' := by
  obtain ⟨first, leftmost, visited⟩ := bind_ok stepped
  simp only [Event.runTimersStep, tracks.base, leftmost, ok_bind]
  cases first with
  | null =>
    cases visited
    exact ⟨_, rfl, .done tracks⟩
  | rbnil => cases visited
  | node a => exact tracks.visit visited

/-- What `run_timers` does to the timers of a worker, and which of them it calls, is what it does on the
timers alone with a callback that closes a connection. -/
theorem runTimers_timers {firing : Firing α σ} (ended : runTimers clock outcomes fuel w = .ok firing) :
    ∃ final, Event.runTimers (closeTimer fuel) clock fuel w.timers = .ok final ∧ Tracks firing final := by
  have start : Tracks ⟨w, 1, []⟩ (⟨w.timers, 1, []⟩ : Running α TimerCallback (Option α)) := ⟨rfl, rfl, rfl⟩
  exact loop_follows (fun _ _ _ tracks stepped => Tracks.step tracks stepped) start ended

end Alone

section Timers

variable {callback : Callback σ} {w w' : Worker α σ} {xs : List α} {resetAt : α → UInt64} {a b : α} {s : Firing α σ}
  {clock : Nat → UInt64} {outcomes : Nat → Outcomes}

/-- What is known of a worker between two callbacks. -/
structure Steady (w : Worker α σ) (xs : List α) (resetAt : α → UInt64) : Prop where
  tidy : Tidy w xs
  count : surplus w xs = 0
  running : Armed w resetAt

theorem Timed.steady (timed : Timed callback (Meets callback) w resetAt) : ∃ xs, Steady w xs resetAt := by
  obtain ⟨xs, tidy, count⟩ := timed.run.tidy
  exact ⟨xs, tidy, count, timed.armed⟩

/-- The connections in the order of their deadlines. -/
theorem Steady.leftmost (steady : Steady w xs resetAt) :
    ∃ queue : List α, Returns (rbtreeLeftmost · w.timers w.timers.root) (queue.head?.elim .null .node) ∧
      (∀ a, a ∈ queue ↔ a ∈ xs) ∧ queue.Pairwise (fun a b => resetAt a + grace ≤ resetAt b + grace) ∧
      ∀ a, queue.head? = some a → Deletable w.timers a := by
  obtain ⟨tidy, -, running⟩ := steady
  obtain ⟨t, added, inv, exact, -⟩ := tidy.timers.tree
  have linked := ((exact_iff inv).mp exact).1
  have payload : ∀ a ∈ t.labels, w.timers.payload a = armed (resetAt a) a := by
    intro a member
    obtain ⟨n, found, -⟩ := (linked a).mp member
    obtain ⟨c, open_⟩ := Option.isSome_iff_exists.mp ((tidy.timers.memory a).mp ⟨n, found⟩)
    exact running a c open_
  refine ⟨t.labels, inv.leftmost, fun a => ?_, ?_, fun a first => ?_⟩
  · rw [linked a, tidy.allocated a]
    constructor
    · rintro ⟨n, found, -⟩
      exact (tidy.timers.memory a).mp ⟨n, found⟩
    · intro live
      obtain ⟨c, open_⟩ := Option.isSome_iff_exists.mp live
      rw [active_iff tidy.timers live, running a c open_, armed_active]
  · apply inv.sorted.imp_of_mem
    intro a b memberA memberB order
    rw [timerCmp_le, payload a memberA, payload b memberB, armed_trigger, armed_trigger] at order
    exact order
  · -- the first node of the tree has no left child
    rintro ⟨n, found, -⟩
    cases labels : t.labels with
    | nil =>
      rw [labels] at first
      cases first
    | cons b rest =>
      rw [labels] at first
      cases first
      exact ⟨n, found, .inl (inv.leftmost_left labels found)⟩

/-- The timer of `a` is due. -/
def Expired (now : UInt64) (resetAt : α → UInt64) (a : α) : Prop := resetAt a + grace ≤ now

instance (now : UInt64) (resetAt : α → UInt64) : DecidablePred (Expired now resetAt) :=
  fun _ => inferInstanceAs (Decidable (_ ≤ _))

omit [DecidableEq α] in
/-- The timer of an open connection. -/
theorem Steady.timer (steady : Steady w xs resetAt) (member : a ∈ xs) :
    timerAt w.timers a = .ok (w.timers.payload a) ∧ (w.timers.payload a).trigger = resetAt a + grace ∧
      (w.timers.payload a).isActive = true ∧ (w.timers.payload a).isOneshot = true := by
  obtain ⟨tidy, -, running⟩ := steady
  have live := (tidy.allocated a).mp member
  obtain ⟨n, found⟩ := (tidy.timers.memory a).mpr live
  obtain ⟨c, open_⟩ := Option.isSome_iff_exists.mp live
  refine ⟨timerAt_ok found, ?_⟩
  rw [running a c open_]
  exact ⟨armed_trigger _ a, armed_active _ a, armed_oneshot _ a⟩

/-- A timer that is due is taken out, and then its callback is called. -/
theorem visitTimer_due (steady : Steady s.worker xs resetAt) (member : a ∈ xs)
    (due : Expired (clock 0) resetAt a) (fuel : Nat) :
    visitTimer clock outcomes fuel s a =
      (expire fuel s.worker a (outcomes s.fired.length)).map fun w => .again ⟨w, s.readings, s.fired ++ [a]⟩ := by
  obtain ⟨found, trigger, active, oneshot⟩ := steady.timer member
  rw [Expired, ← trigger] at due
  simp only [visitTimer, found, ok_bind, if_pos due, active, oneshot, if_true]
  rw [expire]
  cases stopTimer fuel s.worker.timers a with
  | error e => rfl
  | ok timers => rfl

theorem visitTimer_later (steady : Steady s.worker xs resetAt) (member : a ∈ xs)
    (later : ¬ Expired (clock 0) resetAt a) (fuel : Nat) :
    visitTimer clock outcomes fuel s a = .ok (.done s) := by
  obtain ⟨found, trigger, -⟩ := steady.timer member
  rw [Expired, ← trigger] at later
  simp only [visitTimer, found, ok_bind, if_neg later, pure_ok]

/-- The connection whose timer is due next is closed, as one step of the history. -/
theorem Timed.expires (timed : Timed callback (Meets callback) w resetAt) (tidy : Tidy w xs)
    (count : surplus w xs = 0) (member : a ∈ xs) (deletable : Deletable w.timers a) (o : Outcomes) :
    ∃ w' xs', Returns (Conns.expire · w a o) w' ∧ Timed callback (Meets callback) w' resetAt ∧
      Tidy w' xs' ∧ surplus w' xs' = 0 ∧ Closed w a w' := by
  have live := (tidy.allocated a).mp member
  obtain ⟨c, open_⟩ := Option.isSome_iff_exists.mp live
  have active : Active w.timers a := by
    rw [active_iff tidy.timers live, timed.armed a c open_, armed_active]
  obtain ⟨w', xs', ended, tidy', count'⟩ := tidy.expire count active deletable
  obtain ⟨enough, closed⟩ := tidy.expire_closed active deletable o
  obtain ⟨enough', last⟩ := ended
  refine ⟨w', xs', ⟨enough', last⟩, ?_, tidy', count',
    closed (max enough enough') w' (Nat.le_max_left ..) (last _ (Nat.le_max_right ..))⟩
  exact .expire timed active deletable (Returns.mapError _ ⟨enough', last⟩)

/-- What `run_timers` makes of a worker, from where its loop is. -/
structure Closes (now : UInt64) (resetAt : α → UInt64) (w w' : Worker α σ) (fired : List α) : Prop where
  once : fired.Nodup
  due : ∀ a, a ∈ fired ↔ (w.conn a).isSome = true ∧ Expired now resetAt a
  order : fired.Pairwise fun a b => resetAt a + grace ≤ resetAt b + grace
  closed : ∀ a ∈ fired, w'.conn a = none ∧ w'.epoll a = none
  others : ∀ a, a ∉ fired → w'.conn a = w.conn a ∧ w'.epoll a = w.epoll a
  app : w'.app = w.app

/-- One connection, and then the others. -/
theorem Closes.cons {now : UInt64} {w₁ : Worker α σ} {fired : List α} (live : (w.conn a).isSome = true)
    (due : Expired now resetAt a) (closed : Closed w a w₁) (rest : Closes now resetAt w₁ w' fired)
    (first : ∀ b, (w.conn b).isSome = true → resetAt a + grace ≤ resetAt b + grace) :
    Closes now resetAt w w' (a :: fired) := by
  have gone : w₁.conn a = none := by rw [closed.conn, Function.update_self]
  have kept : ∀ b, b ≠ a → w₁.conn b = w.conn b := by
    intro b other
    rw [closed.conn, Function.update_of_ne other]
  have absent : a ∉ fired := by
    rw [rest.due a, gone]
    simp
  have member : ∀ b, b ∈ fired → b ≠ a ∧ (w.conn b).isSome = true ∧ Expired now resetAt b := by
    intro b inside
    have other : b ≠ a := by
      rintro rfl
      exact absent inside
    rw [rest.due b, kept b other] at inside
    exact ⟨other, inside⟩
  refine ⟨List.nodup_cons.mpr ⟨absent, rest.once⟩, fun b => ?_, List.pairwise_cons.mpr ⟨fun b inside => ?_, rest.order⟩,
    fun b inside => ?_, fun b outside => ?_, rest.app.trans closed.app⟩
  · rw [List.mem_cons]
    constructor
    · rintro (rfl | inside)
      · exact ⟨live, due⟩
      · exact (member b inside).2
    · rintro ⟨open_, expired⟩
      by_cases same : b = a
      · exact .inl same
      · right
        rw [rest.due b, kept b same]
        exact ⟨open_, expired⟩
  · exact first b (member b inside).2.1
  · rw [List.mem_cons] at inside
    by_cases again : b ∈ fired
    · exact rest.closed b again
    · -- the first one is not touched any more
      obtain rfl := inside.resolve_right again
      obtain ⟨conn, epoll⟩ := rest.others b again
      rw [conn, epoll, closed.conn, closed.epoll, Function.update_self, Function.update_self]
      exact ⟨rfl, rfl⟩
  · rw [List.mem_cons, not_or] at outside
    obtain ⟨conn, epoll⟩ := rest.others b outside.2
    rw [conn, epoll, closed.conn, closed.epoll, Function.update_of_ne outside.1,
      Function.update_of_ne outside.1]
    exact ⟨rfl, rfl⟩

omit [DecidableEq α] in
theorem Closes.nothing {now : UInt64} (none : ∀ a, (w.conn a).isSome = true → ¬ Expired now resetAt a) :
    Closes now resetAt w w [] := by
  refine ⟨List.nodup_nil, fun a => ?_, .nil, by simp, fun _ _ => ⟨rfl, rfl⟩, rfl⟩
  simp only [List.not_mem_nil, false_iff, not_and]
  exact none a

/-- The connections that are left after one of them has been closed are fewer. -/
theorem Closed.fewer {xs' : List α} (closed : Closed w a w') (tidy : Tidy w xs) (tidy' : Tidy w' xs')
    (member : a ∈ xs) : xs'.length < xs.length := by
  have absent : a ∉ xs' := by
    rw [tidy'.allocated a, closed.conn, Function.update_self]
    simp
  have inside : a :: xs' ⊆ xs := by
    intro b inside
    by_cases same : b = a
    · rw [same]
      exact member
    · have later := (List.mem_cons.mp inside).resolve_left same
      rw [tidy'.allocated b, closed.conn, Function.update_of_ne same] at later
      exact (tidy.allocated b).mpr later
  have nodup : (a :: xs').Nodup := List.nodup_cons.mpr ⟨absent, tidy'.circular.distinct⟩
  exact (List.Nodup.subperm nodup inside).length_le

variable (clock outcomes) in
/-- The loop from any of its states: every round that goes on closes one connection. -/
theorem runTimers_loop (timed : Timed callback (Meets callback) s.worker resetAt) (tidy : Tidy s.worker xs)
    (count : surplus s.worker xs = 0) :
    ∃ w' fired, LoopReturns .fuel (runTimersStep clock outcomes) s ⟨w', s.readings, s.fired ++ fired⟩ ∧
      Timed callback (Meets callback) w' resetAt ∧ Closes (clock 0) resetAt s.worker w' fired := by
  induction size : xs.length using Nat.strong_induction_on generalizing s xs with
  | h n ih =>
    have steady : Steady s.worker xs resetAt := ⟨tidy, count, timed.armed⟩
    obtain ⟨queue, leftmost, members, order, deletable⟩ := steady.leftmost
    -- nothing is due: the loop ends
    have finish : Returns (runTimersStep clock outcomes · s) (.done s) →
        (∀ a, (s.worker.conn a).isSome = true → ¬ Expired (clock 0) resetAt a) →
        ∃ w' fired, LoopReturns .fuel (runTimersStep clock outcomes) s ⟨w', s.readings, s.fired ++ fired⟩ ∧
          Timed callback (Meets callback) w' resetAt ∧ Closes (clock 0) resetAt s.worker w' fired := by
      intro done none
      refine ⟨s.worker, [], ?_, timed, .nothing none⟩
      rw [List.append_nil]
      exact .done done
    cases queue with
    | nil =>
      apply finish (leftmost.bind (.const _))
      intro a live
      have member := (members a).mpr ((tidy.allocated a).mpr live)
      cases member
    | cons a rest =>
      have member : a ∈ xs := (members a).mp List.mem_cons_self
      have first : ∀ b, (s.worker.conn b).isSome = true → resetAt a + grace ≤ resetAt b + grace := by
        intro b live
        obtain same | later := List.mem_cons.mp ((members b).mpr ((tidy.allocated b).mpr live))
        · rw [same]
          exact UInt64.le_refl _
        · exact List.rel_of_pairwise_cons order later
      by_cases due : Expired (clock 0) resetAt a
      · obtain ⟨w₁, xs₁, ended, timed₁, tidy₁, count₁, closed⟩ :=
          timed.expires tidy count member (deletable a rfl) (outcomes s.fired.length)
        have visit : Returns (visitTimer clock outcomes · s a) (.again ⟨w₁, s.readings, s.fired ++ [a]⟩) := by
          simp only [visitTimer_due steady member due]
          exact ended.map _
        obtain ⟨w', fired, loops, timed', rest⟩ :=
          ih xs₁.length (size ▸ closed.fewer tidy tidy₁ member) (s := ⟨w₁, s.readings, s.fired ++ [a]⟩)
            timed₁ tidy₁ count₁ rfl
        refine ⟨w', a :: fired, ?_, timed', rest.cons ((tidy.allocated a).mp member) due closed first⟩
        rw [List.append_assoc] at loops
        exact .again (leftmost.bind visit) loops
      · have visit : Returns (visitTimer clock outcomes · s a) (.done s) := by
          simp only [visitTimer_later steady member due]
          exact .const _
        apply finish (leftmost.bind visit)
        intro b live expired
        exact due (UInt64.le_trans (first b live) expired)

/-- From every state between two callbacks, `run_timers` comes to an end.  It has closed the connections
whose five seconds were over when it looked at the clock, each once and in the order of their
deadlines, and left all others as they were. -/
theorem runTimers_closes_expired (timed : Timed callback (Meets callback) w resetAt) (clock : Nat → UInt64)
    (outcomes : Nat → Outcomes) :
    ∃ w' fired, Returns (runTimers clock outcomes · w) ⟨w', 1, fired⟩ ∧
      Closes (clock 0) resetAt w w' fired ∧ Timed callback (Meets callback) w' resetAt := by
  obtain ⟨xs, tidy, count⟩ := timed.run.tidy
  have start : Timed callback (Meets callback) (Firing.mk w 1 []).worker resetAt := timed
  obtain ⟨w', fired, loops, timed', closes⟩ := runTimers_loop clock outcomes start tidy count
  exact ⟨w', fired, loops.returns, closes, timed'⟩

/-- Both timers are due, and the client that arrived first is closed first. -/
theorem runTimers_closes_expired_two : ∃ w resetAt,
    Returns (runTimers (fun _ => 2 + grace) (fun _ => hangup) · twoClients) ⟨w, 1, [1, 2]⟩ ∧
      resetAt 1 = 1 ∧ resetAt 2 = 2 ∧ Closes (2 + grace) resetAt twoClients w [1, 2] := by
  obtain ⟨resetAt, timed, first, second⟩ := timed_twoClients
  obtain ⟨w, fired, ended, closes, -⟩ := runTimers_closes_expired timed (fun _ => 2 + grace) fun _ => hangup
  obtain ⟨xs, tidy, -⟩ := timed.run.tidy
  have both : CircularList.Circular twoClients.conns [1, 2] := ⟨by decide, rfl, rfl, rfl, rfl, rfl, rfl⟩
  cases tidy.circular.unique both
  have members : ∀ a, a ∈ fired ↔ a ∈ [1, 2] := by
    intro a
    rw [closes.due, ← tidy.allocated]
    refine ⟨And.left, fun inside => ⟨inside, ?_⟩⟩
    obtain rfl | rfl : a = 1 ∨ a = 2 := by simpa using inside
    · rw [Expired, first]
      decide
    · rw [Expired, second]
      exact UInt64.le_refl _
  have order := closes.order
  obtain rfl | rfl := List.perm_pair.mp ((List.perm_ext_iff_of_nodup closes.once both.distinct).mpr members)
  · exact ⟨w, resetAt, ended, first, second, closes⟩
  · -- the other order is not the one of the deadlines
    rw [List.pairwise_pair, first, second] at order
    exact absurd order (by decide)

end Timers

/-! ## Events -/

def maxIoEvents : Nat := 64

/-- An entry of the array of `epoll_wait`, for the listening socket or for a connection, with the
answers to the calls that its callback leads to. -/
inductive Ready (α : Type) where
  | listener (events : Events) (accepting : Accepting α) (o : Outcomes)
  | conn (a : α) (events : Events) (o : Outcomes)

/-- `event->cb(event->fd, events[i].events, event->data)` -/
def Ready.call : Ready α → Call α
  | .listener events accepting _ => .accept events accepting
  | .conn a events _ => .io a events

def Ready.outcomes : Ready α → Outcomes
  | .listener _ _ o => o
  | .conn _ _ o => o

/-- What `epoll_wait` returns: the number, which is negative if the call failed, and the array. -/
structure Wait (α : Type) where
  n : Int
  events : List (Ready α)
  bound : events.length ≤ maxIoEvents
  filled : n = events.length ∨ n = -1

/-- The entries that the loop of `run_io` gets to: none if the call failed. -/
def Wait.entries (wait : Wait α) : List (Ready α) := wait.events.take wait.n.toNat

/-- The loop of `run_io` over the entries. -/
def handOut (callback : Callback σ) (fuel : Nat) : Worker α σ → List (Ready α) → Except Crash (Worker α σ)
  | w, [] => .ok w
  | w, ready :: events => do handOut callback fuel (← handle callback fuel w ready.call ready.outcomes) events

/-- `run_io(base, timeout)` -/
def runIo (callback : Callback σ) (fuel : Nat) (w : Worker α σ) (wait : Wait α) :
    Except Crash (Status × Worker α σ) :=
  do
  if wait.n ≠ 0 then
    -- a failed call comes here too, and the loop has nothing to do
    let w ← handOut callback fuel w wait.entries
    return (.ok, w)
  else if wait.n < 0 then return (.err, w)
  else return (.ok, w)

/-- The clock and the answers of one round of the loop. -/
structure Round (α : Type) where
  clock : Nat → UInt64
  outcomes : Nat → Outcomes
  wait : Wait α

/-- `event_base_iter(base)` -/
def eventBaseIter (callback : Callback σ) (fuel : Nat) (w : Worker α σ) (round : Round α) :
    Except Crash (Status × Worker α σ) :=
  do
  let firing ← (runTimers round.clock round.outcomes fuel w).mapError .fault
  runIo callback fuel firing.worker round.wait

section Events

variable {callback : Callback σ} {w w' : Worker α σ} {xs : List α} {a b : α}

/-- The entries that are for the connection `a`. -/
def Ready.On (a : α) : Ready α → Prop
  | .listener _ _ _ => False
  | .conn b _ _ => b = a

/-- `epoll_wait` reports descriptors that are registered, and none of them twice. -/
structure Reported (w : Worker α σ) (events : List (Ready α)) : Prop where
  registered : ∀ a, (∃ ready ∈ events, ready.On a) → w.epoll a ≠ none
  once : events.Pairwise fun first second => ∀ a, first.On a → ¬ second.On a

/-- The callbacks of a batch, one after the other: `calloc` gives memory that is not in use, the
callback meets its condition, and the code of the connection comes to an end. -/
def Proceeds (callback : Callback σ) : Worker α σ → List (Ready α) → Prop
  | _, [] => True
  | w, ready :: events =>
    (∀ events accepting o, ready = .listener events accepting o → Possible w (.accept events accepting)) ∧
      Meets callback w ready.outcomes ready.call ∧ Ends callback w ready.outcomes ready.call ∧
      ∀ w', Returns (handle callback · w ready.call ready.outcomes) w' → Proceeds callback w' events

/-- A callback leaves the entries of all other connections alone. -/
theorem Tidy.epoll_kept {ready : Ready α} (tidy : Tidy w xs) (possible : Possible w ready.call)
    (meets : Meets callback w ready.outcomes ready.call)
    (ended : Returns (Conns.handle callback · w ready.call ready.outcomes) w') (other : ¬ ready.On b)
    (registered : w.epoll b ≠ none) : w'.epoll b = w.epoll b := by
  cases ready with
  | listener events accepting o =>
    obtain ⟨enough, ended⟩ := ended
    obtain rfl | ⟨a, w₁, -, free, effect, rfl⟩ := tidy.accept_effect possible meets
      ⟨enough, fun fuel bound => mapError_ok (ended fuel bound)⟩
    · rfl
    · -- the new connection has an address without an entry
      have differ : b ≠ a := by
        rintro rfl
        exact registered (tidy.unlisted b free)
      dsimp only
      rw [effect.epoll, Function.update_of_ne differ]
      rfl
  | conn a events o =>
    cases found : w.conn a with
    | none => exact absurd (tidy.unlisted a found) possible
    | some c =>
      obtain ⟨result, code⟩ := ends_of_returns ended c found
      obtain ⟨-, effect⟩ := tidy.io_effect meets found code ended
      rw [effect.epoll, Function.update_of_ne (Ne.symm other)]

omit [DecidableEq α] in
/-- The rest of a batch is as it was reported. -/
theorem Reported.tail {ready : Ready α} {events : List (Ready α)} (reported : Reported w (ready :: events))
    (kept : ∀ b, ¬ ready.On b → w.epoll b ≠ none → w'.epoll b = w.epoll b) : Reported w' events := by
  obtain ⟨registered, once⟩ := reported
  refine ⟨?_, (List.pairwise_cons.mp once).2⟩
  rintro b ⟨later, inside, on⟩
  have here := registered b ⟨later, List.mem_cons_of_mem _ inside, on⟩
  rw [kept b (fun first => List.rel_of_pairwise_cons once inside b first on) here]
  exact here

/-- Every callback of a batch is called for a connection that is still registered. -/
theorem handOut_returns {events : List (Ready α)} (run : Run callback (Meets callback) w) (reported : Reported w events)
    (proceeds : Proceeds callback w events) :
    ∃ w', Returns (handOut callback · w events) w' ∧ Run callback (Meets callback) w' := by
  induction events generalizing w with
  | nil => exact ⟨w, .const w, run⟩
  | cons ready events ih =>
    obtain ⟨granted, meets, ends, rest⟩ := proceeds
    obtain ⟨xs, tidy, count⟩ := run.tidy
    have possible : Possible w ready.call := by
      cases ready with
      | listener events accepting o => exact granted events accepting o rfl
      | conn a events o => exact reported.registered a ⟨_, List.mem_cons_self, rfl⟩
    obtain ⟨w₁, xs₁, ended, -⟩ := tidy.handle count possible meets ends
    have reported₁ := reported.tail fun b other => tidy.epoll_kept possible meets ended other
    obtain ⟨w', later, run'⟩ := ih (.step _ _ run possible meets ended) reported₁ (rest w₁ ended)
    exact ⟨w', ended.bind later, run'⟩

/-- What the system may answer in one round: the batch is asked for after the timers have run. -/
def Round.Permitted (callback : Callback σ) (w : Worker α σ) (round : Round α) : Prop :=
  ∀ firing, Returns (runTimers round.clock round.outcomes · w) firing →
    Reported firing.worker round.wait.entries ∧ Proceeds callback firing.worker round.wait.entries

/-- `run_io` has no way to fail. -/
theorem runIo_returns {wait : Wait α} (ended : Returns (handOut callback · w wait.entries) w') :
    Returns (runIo callback · w wait) (.ok, w') := by
  by_cases zero : wait.n = 0
  · have nothing : wait.entries = [] := by simp [Wait.entries, zero]
    rw [nothing] at ended
    cases ended.unique (.const w)
    simp only [runIo, zero, ne_eq, not_true, if_false, Int.lt_irrefl]
    exact .const _
  · simp only [runIo, ne_eq, zero, not_false_iff, if_true]
    exact ended.bind (.const _)

/-- One round, from any state between two callbacks to another one. -/
theorem eventBaseIter_returns {round : Round α} (run : Run callback (Meets callback) w)
    (permitted : round.Permitted callback w) :
    ∃ w', Returns (eventBaseIter callback · w round) (.ok, w') ∧ Run callback (Meets callback) w' := by
  obtain ⟨xs, tidy, count⟩ := run.tidy
  obtain ⟨resetAt, timed⟩ := run.timed
  have start : Timed callback (Meets callback) (Firing.mk w 1 []).worker resetAt := timed
  obtain ⟨w₁, fired, loops, timed₁, -⟩ := runTimers_loop round.clock round.outcomes start tidy count
  obtain ⟨reported, proceeds⟩ := permitted _ loops.returns
  obtain ⟨w', ended, run'⟩ := handOut_returns timed₁.run reported proceeds
  have timers := loops.returns.mapError Crash.fault
  exact ⟨w', timers.bind (runIo_returns ended), run'⟩

end Events

end Cask.Conns
