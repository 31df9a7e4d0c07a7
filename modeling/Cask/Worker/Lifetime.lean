import Cask.Worker.EventLoop

/-! # The thread of a worker

`worker_proc` goes round the event loop until it finds `running` cleared, and `destroy_worker` then
closes the connections that are still open.  Its loop frees the node that it stands on, so it reads
the next one before.
-/

namespace Cask.Conns

open RbTree Event Conn Http Fuel

variable {α σ : Type} [DecidableEq α]

/-- The variables of `list_for_each_safe` in `destroy_worker`, and the connections closed so far. -/
structure Draining (α σ : Type) where
  worker : Worker α σ
  iter : CircularList.Ptr α
  next : CircularList.Ptr α
  closed : List α

/-- The test, the body and the step of the loop. -/
def drainStep (outcomes : Nat → Outcomes) (fuel : Nat) (s : Draining α σ) :
    Except Fault (Next (Draining α σ) (Worker α σ × List α)) :=
  match s.iter with
  | .head => .ok (.done (s.worker, s.closed))
  | .null => .error .nullDeref
  | .node a => do
    let o := outcomes s.closed.length
    touch s.worker (.node a)
    let w ← settle fuel s.worker a o.times (closeConnection (s.worker.io a o))
    touch w s.next
    return .again ⟨w, s.next, w.conns.next s.next, s.closed ++ [a]⟩

/-- The connections in `destroy_worker(worker)`, in the order in which they are closed. -/
def destroyWorker (outcomes : Nat → Outcomes) (fuel : Nat) (w : Worker α σ) :
    Except Fault (Worker α σ × List α) :=
  do
  let iter := w.conns.next .head
  touch w iter
  loop .fuel (drainStep outcomes fuel) fuel ⟨w, iter, w.conns.next iter, []⟩

/-- The loop of `worker_proc`, which finds `running` set as often as there are rounds, and `ret`. -/
def runWorker (callback : Callback σ) (fuel : Nat) : Worker α σ → List (Round α) → Except Crash (Nat × Worker α σ)
  | w, [] => .ok (0, w)
  | w, round :: rounds => do
    match ← eventBaseIter callback fuel w round with
    | (.ok, w) => runWorker callback fuel w rounds
    | (.err, w) => return (1, w)

/-- `worker_proc(worker)`: what the thread exits with, and what it leaves. -/
def workerProc (callback : Callback σ) (outcomes : Nat → Outcomes) (fuel : Nat) (w : Worker α σ)
    (rounds : List (Round α)) : Except Crash (Nat × Worker α σ × List α) :=
  do
  let (ret, w) ← runWorker callback fuel w rounds
  let (w, closed) ← (destroyWorker outcomes fuel w).mapError .fault
  return (ret, w, closed)

/-! ## Closing all connections -/

section Drain

variable {w w' : Worker α σ} {xs rest closed : List α} {a : α} {o : Outcomes} {outcomes : Nat → Outcomes}

/-- No node that is taken out of the tree of timers on the way has two children. -/
def Drains (outcomes : Nat → Outcomes) : Nat → Worker α σ → List α → Prop
  | _, _, [] => True
  | k, w, a :: rest => Deletable w.timers a ∧
    ∀ w', Returns (timeoutCallback · w a (outcomes k)) w' → Drains outcomes (k + 1) w' rest

theorem timeoutCallback_conns {fuel : Nat} (ended : timeoutCallback fuel w a o = .ok w') :
    w'.conns = w.conns.del a := by
  obtain ⟨-, -, settled⟩ := bind_ok ended
  obtain ⟨timers, -, released⟩ := bind_ok settled
  obtain ⟨-, -, released⟩ := bind_ok released
  obtain ⟨-, -, released⟩ := bind_ok released
  obtain ⟨-, -, released⟩ := bind_ok released
  cases released
  rfl

/-- Closing the first connection leaves the list of the others. -/
theorem Tidy.close_first (tidy : Tidy w (a :: rest)) (count : surplus w (a :: rest) = 0)
    (deletable : Deletable w.timers a) (o : Outcomes) :
    ∃ w', Returns (Conns.timeoutCallback · w a o) w' ∧ Tidy w' rest ∧ surplus w' rest = 0 ∧ w'.app = w.app := by
  obtain ⟨w', xs', ended, tidy', count'⟩ := tidy.timeoutCallback (o := o) count List.mem_cons_self deletable
  obtain ⟨enough, closed⟩ := tidy.timeout_closed List.mem_cons_self deletable o
  obtain ⟨enough', last⟩ := ended
  have conns := timeoutCallback_conns (last enough' (Nat.le_refl _))
  have left := tidy.circular.del List.mem_cons_self
  rw [← conns, List.erase_cons_head] at left
  cases tidy'.circular.unique left
  have effect := closed (max enough enough') w' (Nat.le_max_left ..) (last _ (Nat.le_max_right ..))
  exact ⟨w', ⟨enough', last⟩, tidy', count', effect.app⟩

/-- The loop, from the connections that it has not closed yet. -/
theorem Tidy.drain (tidy : Tidy w xs) (count : surplus w xs = 0) (drains : Drains outcomes closed.length w xs) :
    ∃ w', LoopReturns .fuel (drainStep outcomes)
        ⟨w, CircularList.firstPtr .head xs, w.conns.next (CircularList.firstPtr .head xs), closed⟩ (w', closed ++ xs) ∧
      Tidy w' [] ∧ surplus w' [] = 0 ∧ w'.app = w.app := by
  induction xs generalizing w closed with
  | nil =>
    refine ⟨w, ?_, tidy, count, rfl⟩
    rw [List.append_nil]
    exact .done (.const _)
  | cons a rest ih =>
    obtain ⟨deletable, later⟩ := drains
    obtain ⟨w₁, ended, tidy₁, count₁, app⟩ := tidy.close_first count deletable (outcomes closed.length)
    have drains₁ : Drains outcomes (closed ++ [a]).length w₁ rest := by
      rw [List.length_append]
      exact later w₁ ended
    obtain ⟨w', loops, tidy', count', app'⟩ := ih tidy₁ count₁ drains₁
    refine ⟨w', ?_, tidy', count', app'.trans app⟩
    -- the next node was read before this one was freed, and it is still there
    have next : w.conns.next (.node a) = CircularList.firstPtr .head rest := tidy.circular.path.2.2.first
    have inside : CircularList.firstPtr .head rest ∈ (.head :: rest.map .node : List (CircularList.Ptr α)) := by
      cases rest <;> simp [CircularList.firstPtr]
    have safe := touch_ok (fun b member => (tidy₁.allocated b).mp member) inside
    rw [List.append_assoc] at loops
    refine .again ?_ loops
    have body : (drainStep outcomes · ⟨w, .node a, w.conns.next (.node a), closed⟩) =
        fun fuel => (Conns.timeoutCallback fuel w a (outcomes closed.length)).bind fun w₂ =>
          (touch w₂ (CircularList.firstPtr .head rest)).bind fun _ =>
            .ok (.again ⟨w₂, CircularList.firstPtr .head rest, w₂.conns.next (CircularList.firstPtr .head rest),
              closed ++ [a]⟩) := by
      funext fuel
      simp only [drainStep, next, Conns.timeoutCallback]
      cases touch w (.node a) <;> rfl
    rw [CircularList.firstPtr, body]
    refine ended.bind ?_
    simp only [safe, Except.bind]
    exact .const _

end Drain

/-! ## The whole thread -/

section Thread

variable {callback : Callback σ} {w w' : Worker α σ} {xs : List α} {rounds : List (Round α)}
  {outcomes : Nat → Outcomes}

/-- What the system may answer, round after round. -/
def Permits (callback : Callback σ) : Worker α σ → List (Round α) → Prop
  | _, [] => True
  | w, round :: rounds => round.Permitted callback w ∧
    ∀ w', Returns (eventBaseIter callback · w round) (.ok, w') → Permits callback w' rounds

/-- The loop never stops by itself. -/
theorem runWorker_returns (run : Run callback (Meets callback) w) (permits : Permits callback w rounds) :
    ∃ w', Returns (runWorker callback · w rounds) (0, w') ∧ Run callback (Meets callback) w' := by
  induction rounds generalizing w with
  | nil => exact ⟨w, .const _, run⟩
  | cons round rounds ih =>
    obtain ⟨permitted, later⟩ := permits
    obtain ⟨w₁, ended, run₁⟩ := eventBaseIter_returns run permitted
    obtain ⟨w', rest, run'⟩ := ih run₁ (later w₁ ended)
    exact ⟨w', ended.bind rest, run'⟩

/-- A worker without connections: none is listed, counted, allocated or registered, and no timer runs. -/
structure Idle (w : Worker α σ) : Prop where
  listed : CircularList.Circular w.conns []
  counted : w.numConns = 0
  allocated : ∀ a, w.conn a = none
  registered : ∀ a, w.epoll a = none
  timers : ∀ a, ¬ Linked w.timers a

omit [DecidableEq α] in
theorem number_of_surplus (count : surplus w xs = 0) : w.numConns = BitVec.ofNat 64 xs.length := by
  rw [surplus] at count
  generalize BitVec.ofNat 64 xs.length = k at count ⊢
  bv_omega

omit [DecidableEq α] in
theorem Tidy.idle (tidy : Tidy w []) (count : surplus w [] = 0) : Idle w := by
  have gone : ∀ a, w.conn a = none := by
    intro a
    have absent := mt (tidy.allocated a).mpr List.not_mem_nil
    rwa [Option.not_isSome_iff_eq_none] at absent
  refine ⟨tidy.circular, number_of_surplus count, gone, fun a => tidy.unlisted a (gone a), fun a linked => ?_⟩
  obtain ⟨t, added, inv, exact, -⟩ := tidy.timers.tree
  obtain ⟨n, found, -⟩ := (exact.linked a).mp linked
  have live := (tidy.timers.memory a).mp ⟨n, found⟩
  rw [gone a] at live
  cases live

/-- The thread of a worker, from any state between two callbacks: it goes round its loop until it is
told to stop, also if `epoll_wait` fails.  Then it closes the connections that are open, each once and
in the order of the list, touches none of them after it was freed, and leaves nothing behind. -/
theorem workerProc_closes_all (run : Run callback (Meets callback) w) (permits : Permits callback w rounds)
    (drains : ∀ w₁ xs, Returns (runWorker callback · w rounds) (0, w₁) → CircularList.Circular w₁.conns xs →
      Drains outcomes 0 w₁ xs) :
    ∃ w₁ xs w', Returns (runWorker callback · w rounds) (0, w₁) ∧ Consistent w₁ xs ∧
      Returns (workerProc callback outcomes · w rounds) (0, w', xs) ∧ Idle w' ∧ w'.app = w₁.app := by
  obtain ⟨w₁, loops, run₁⟩ := runWorker_returns run permits
  obtain ⟨xs, tidy, count⟩ := run₁.tidy
  have start : Drains outcomes ([] : List α).length w₁ xs := drains w₁ xs loops tidy.circular
  obtain ⟨w', drained, tidy', count', app⟩ := tidy.drain count start
  refine ⟨w₁, xs, w', loops, ⟨tidy.circular, number_of_surplus count, tidy.allocated, tidy.listed, tidy.unlisted⟩,
    ?_, tidy'.idle count', app⟩
  have first := tidy.circular.path.first
  have inside : CircularList.firstPtr .head xs ∈ (.head :: xs.map .node : List (CircularList.Ptr α)) := by
    cases xs <;> simp [CircularList.firstPtr]
  have safe := touch_ok (fun b member => (tidy.allocated b).mp member) inside
  have closes : Returns (destroyWorker outcomes · w₁) (w', xs) := by
    simp only [destroyWorker, first, safe, ok_bind]
    exact drained.returns
  exact loops.bind ((closes.mapError Crash.fault).bind (.const _))

/-- A client arrives, and nobody hears of it again. -/
def arrivalRound (a : Nat) : Round Nat where
  clock := fun _ => 0
  outcomes := fun _ => hangup
  wait := ⟨1, [.listener ⟨true, false⟩ ⟨true, true, some a, true⟩ (atTime (.ofNat a))], by simp [maxIoEvents], .inl rfl⟩

theorem permitted_arrival {w : Worker Nat Unit} {a : Nat} (free : w.conn a = none) (unlisted : w.epoll a = none)
    (idle : Returns (runTimers (arrivalRound a).clock (arrivalRound a).outcomes · w) ⟨w, 1, []⟩) :
    (arrivalRound a).Permitted notFound w := by
  intro firing ended
  cases ended.unique idle
  refine ⟨⟨?_, List.pairwise_singleton _ _⟩, fun events accepting o same b given => ?_,
    meets_arrival _ unlisted, trivial, fun _ _ => trivial⟩
  · rintro b ⟨ready, inside, on⟩
    cases List.mem_singleton.mp inside
    cases on
  · cases same
    cases given
    exact free

/-- Two clients are connected when the worker is told to stop. -/
theorem workerProc_closes_all_two : ∃ w,
    Returns (workerProc notFound (fun _ => hangup) · (created ()) [arrivalRound 1, arrivalRound 2]) (0, w, [1, 2]) ∧
      Idle w := by
  have first : Returns (eventBaseIter notFound · (created ()) (arrivalRound 1)) (.ok, oneClient) := .of_add 9 fun _ => rfl
  have iter : Returns (runWorker notFound · (created ()) [arrivalRound 1, arrivalRound 2]) (0, twoClients) :=
    .of_add 9 fun _ => rfl
  have permits : Permits notFound (created ()) [arrivalRound 1, arrivalRound 2] := by
    refine ⟨permitted_arrival rfl rfl (.of_add 9 fun _ => rfl), fun w ended => ?_⟩
    cases ended.unique first
    exact ⟨permitted_arrival rfl rfl (.of_add 9 fun _ => rfl), fun _ _ => trivial⟩
  have both : CircularList.Circular twoClients.conns [1, 2] := ⟨by decide, rfl, rfl, rfl, rfl, rfl, rfl⟩
  have upper : twoClients.timers.node 1 = some ⟨.black, .rbnil, .node 2, .null⟩ := rfl
  have lower : (after twoClients (.timeout 1) hangup).timers.node 2 = some ⟨.black, .rbnil, .rbnil, .null⟩ := rfl
  have closes : Returns (timeoutCallback · twoClients 1 hangup) (after twoClients (.timeout 1) hangup) :=
    .of_add 9 fun _ => rfl
  have drains : ∀ w xs, Returns (runWorker notFound · (created ()) [arrivalRound 1, arrivalRound 2]) (0, w) →
      CircularList.Circular w.conns xs → Drains (fun _ => hangup) 0 w xs := by
    intro w xs ended circular
    cases ended.unique iter
    cases circular.unique both
    refine ⟨fun _ => ⟨_, upper, .inl rfl⟩, fun w' ended' => ?_⟩
    cases ended'.unique closes
    exact ⟨fun _ => ⟨_, lower, .inl rfl⟩, fun _ _ => trivial⟩
  obtain ⟨w₁, xs, w', ended, consistent, closed, idle, -⟩ := workerProc_closes_all (.start ()) permits drains
  cases ended.unique iter
  cases consistent.circular.unique both
  exact ⟨w', closed, idle⟩

end Thread

end Cask.Conns
