import Cask.Event.Termination
import Cask.Worker.Bookkeeping

/-! # Deadlines

`begin_read` and `begin_send` start the timer of their connection anew, and nothing else does.  So
between any two callbacks every open connection has its own timer in the tree, which closes it five
seconds after the clock was read for the last of these calls.
-/

namespace Cask.Conns

open RbTree Event Conn Http Fuel

variable {α σ : Type} [DecidableEq α] {callback : Callback σ} {w w' : Worker α σ} {xs : List α} {a b : α}

/-! ## What a callback changes -/

/-- What the worker is after the code of the connection `a` has come to `result`. -/
structure Effect (w : Worker α σ) (a : α) (times : List UInt64) (result : Option Connection × Io σ)
    (w' : Worker α σ) : Prop where
  conn : w'.conn = Function.update w.conn a result.1
  epoll : w'.epoll = Function.update w.epoll a result.2.interest
  app : w'.app = result.2.app
  others : ∀ b, b ≠ a → w'.timers.payload b = w.timers.payload b
  mine : ∀ resets, result.2.timer = List.replicate resets .reset →
    w'.timers.payload a = rearmed a times (w.timers.payload a) resets

/-- Only the timers come out of a computation that may fail. -/
theorem settle_ok {fuel : Nat} {times : List UInt64} {result : Option Connection × Io σ}
    {timers : St α (Timer TimerCallback (Option α))}
    (replayed : replay fuel a result.2.timer times w.timers = .ok timers)
    (ended : settle fuel w a times result = .ok w') :
    w'.conn = Function.update w.conn a result.1 ∧
      w'.epoll = Function.update w.epoll a result.2.interest ∧ w'.app = result.2.app ∧
      w'.timers.payload = timers.payload := by
  rw [settle, replayed, ok_bind] at ended
  cases conn : result.1 with
  | some c =>
    rw [conn] at ended
    cases ended
    exact ⟨rfl, rfl, rfl, rfl⟩
  | none =>
    rw [conn] at ended
    obtain ⟨-, -, ended⟩ := bind_ok ended
    obtain ⟨-, -, ended⟩ := bind_ok ended
    obtain ⟨-, -, ended⟩ := bind_ok ended
    cases ended
    exact ⟨rfl, rfl, rfl, rfl⟩

/-- Once the fuel is enough, a callback on a connection changes this connection alone. -/
theorem Busy.effect {times : List UInt64} {result : Option Connection × Io σ} (busy : Busy w xs a)
    (apart : Apart a result.2.timer times w.timers) :
    ∃ enough, ∀ fuel w', enough ≤ fuel → Conns.settle fuel w a times result = .ok w' →
      Effect w a times result w' := by
  have live := (busy.allocated a).mp busy.member
  obtain ⟨timers, ⟨enough, replayed⟩, -, -, mine, others⟩ := replay_armed busy.timers live apart
  refine ⟨enough, fun fuel w' bound ended => ?_⟩
  obtain ⟨conn, epoll, app, payload⟩ := settle_ok (replayed fuel bound) ended
  rw [← payload] at mine others
  exact ⟨conn, epoll, app, others, mine⟩

/-- `on_accept` does nothing, or runs `begin_read` on a new connection and counts it. -/
theorem onAccept_cases {fuel : Nat} {events : Events} {accepting : Accepting α} {o : Outcomes}
    (ended : onAccept fuel w events accepting o = .ok w') : w' = w ∨ ∃ a w₁, accepting.calloc = some a ∧
      settle fuel (enrol w a) a o.times (beginRead fresh ((enrol w a).io a o)) = .ok w₁ ∧
      w' = { w₁ with numConns := w₁.numConns + 1 } := by
  unfold onAccept at ended
  split at ended
  · obtain ⟨⟨status, w₁⟩, accepted, counted⟩ := bind_ok ended
    unfold acceptConnection at accepted
    split at accepted
    · cases accepted
      cases counted
      exact .inl rfl
    · split at accepted
      · cases accepted
        cases counted
        exact .inl rfl
      · split at accepted
        · cases accepted
          cases counted
          exact .inl rfl
        · next a found =>
          split at accepted
          · cases accepted
            cases counted
            exact .inl rfl
          · -- the connection exists
            obtain ⟨w₂, enlisted, started⟩ := bind_ok accepted
            obtain ⟨w₃, settled, finished⟩ := bind_ok started
            obtain ⟨-, -, linked⟩ := bind_ok enlisted
            cases linked
            cases finished
            cases counted
            exact .inr ⟨a, w₁, found, settled, rfl⟩
  · cases ended
    exact .inl rfl

theorem beginRead_log {c : Connection} {io : Io σ} (kept : (beginRead c io).1.isSome = true) :
    (beginRead c io).2.timer = io.timer ++ [.reset] := by
  obtain ⟨c', io', reset, -, -, log, -⟩ := resetConnection_ok c io
  rw [beginRead, reset] at kept ⊢
  dsimp only at kept ⊢
  obtain added | failed := addEvent_cases io' .epollin
  · rw [added]
    exact log
  · rw [failed] at kept
    cases kept

/-! ## The buffers -/

/-- The buffers of the open connections are valid. -/
def BuffersValid (w : Worker α σ) : Prop := ∀ a c, w.conn a = some c → Valid c.buffer

omit [DecidableEq α] in
theorem buffersValid_created (app : σ) : BuffersValid (created app : Worker α σ) := fun _ _ found => nomatch found

theorem BuffersValid.update {conn : Option Connection} (valid : BuffersValid w)
    (left : ∀ c, conn = some c → Valid c.buffer) (changed : w'.conn = Function.update w.conn a conn) :
    BuffersValid w' := by
  intro b c found
  rw [changed] at found
  by_cases same : b = a
  · rw [same, Function.update_self] at found
    exact left c found
  · rw [Function.update_of_ne same] at found
    exact valid b c found

theorem settle_buffers {fuel : Nat} {times : List UInt64} {result : Option Connection × Io σ}
    (valid : BuffersValid w) (left : BufferValid result) (ended : settle fuel w a times result = .ok w') :
    BuffersValid w' := by
  obtain ⟨timers, replayed, -⟩ := bind_ok ended
  exact valid.update left (settle_ok replayed ended).1

theorem timeoutCallback_buffers {fuel : Nat} {o : Outcomes} (valid : BuffersValid w)
    (ended : timeoutCallback fuel w a o = .ok w') : BuffersValid w' := by
  obtain ⟨-, -, settled⟩ := bind_ok ended
  exact settle_buffers valid (closeConnection_valid _) settled

theorem acceptConnection_buffers {fuel : Nat} {accepting : Accepting α} {o : Outcomes} {status : Status}
    (valid : BuffersValid w) (ended : acceptConnection fuel w accepting o = .ok (status, w')) : BuffersValid w' := by
  simp only [acceptConnection] at ended
  split at ended
  · cases ended
    exact valid
  split at ended
  · cases ended
    exact valid
  split at ended
  · cases ended
    exact valid
  · next a _ =>
    split at ended
    · cases ended
      exact valid
    · obtain ⟨w₁, enlisted, ended⟩ := bind_ok ended
      obtain ⟨w₂, settled, last⟩ := bind_ok ended
      obtain ⟨-, -, enrolled⟩ := bind_ok enlisted
      cases enrolled
      cases last
      have fresh_valid : ∀ c, some fresh = some c → Valid c.buffer := by
        intro c same
        cases same
        exact valid_emptyBuffer
      have enrolled : BuffersValid (enrol w a) := valid.update fresh_valid rfl
      exact settle_buffers enrolled (beginRead_valid valid_emptyBuffer _) settled

/-- In every run, whatever its callbacks take out of the tree of timers, no callback copies past the block
of a buffer. -/
theorem Run.buffers {allowed : Worker α σ → Outcomes → Call α → Prop} (run : Run callback allowed w) :
    BuffersValid w := by
  induction run with
  | start app => exact buffersValid_created app
  | @step w w' call o _ possible meets ended ih =>
    obtain ⟨enough, ended⟩ := ended
    have last := ended enough (Nat.le_refl _)
    cases call with
    | accept events accepting =>
      have last := mapError_ok last
      simp only [onAccept] at last
      split at last
      · obtain ⟨⟨status, w₁⟩, accepted, last⟩ := bind_ok last
        have valid := acceptConnection_buffers ih accepted
        cases status <;> cases last <;> exact valid
      · cases last
        exact ih
    | io a events =>
      simp only [handle, ioCallback] at last
      split at last
      · cases last
      · next c found =>
        split at last
        · cases last
        · next result code => exact settle_buffers ih (ioCallback_valid (ih a c found) code) (mapError_ok last)
    | timeout a => exact timeoutCallback_buffers ih (mapError_ok last)
    | expire a =>
      obtain ⟨timers, -, called⟩ := bind_ok (mapError_ok last)
      obtain ⟨timer, -, called⟩ := bind_ok called
      split at called
      · exact timeoutCallback_buffers (w := { w with timers := timers }) ih called
      · cases called

/-! ## Timers that run -/

/-- Every open connection has a timer that runs from the time `resetAt`. -/
def Armed (w : Worker α σ) (resetAt : α → UInt64) : Prop :=
  ∀ a c, w.conn a = some c → w.timers.payload a = armed (resetAt a) a

/-- The time of the last of some resets. -/
def resetTime (times : List UInt64) (before : UInt64) : Nat → UInt64
  | 0 => before
  | resets + 1 => times.getD resets 0

omit [DecidableEq α] in
theorem rearmed_armed (a : α) (times : List UInt64) (before : UInt64) (resets : Nat) :
    rearmed a times (armed before a) resets = armed (resetTime times before resets) a := by
  cases resets <;> simp only [rearmed, resetTime]

/-- A callback on `a` leaves the timers of the others running, and its own if the connection stays open. -/
theorem Effect.armed {times : List UInt64} {result : Option Connection × Io σ} {resetAt : α → UInt64} {time : UInt64}
    (effect : Effect w a times result w') (others : ∀ b c, b ≠ a → w.conn b = some c →
      w.timers.payload b = armed (resetAt b) b)
    (mine : result.1.isSome = true → w'.timers.payload a = armed time a) :
    Armed w' (Function.update resetAt a time) := by
  intro b c found
  rw [effect.conn] at found
  by_cases same : b = a
  · subst same
    rw [Function.update_self] at found
    rw [Function.update_self, mine (by rw [found]; rfl)]
  · rw [Function.update_of_ne same] at found
    rw [Function.update_of_ne same, effect.others b same, others b c same found]

/-- A connection that `on_accept` makes is reset once. -/
def acceptedAt (accepting : Accepting α) (time : UInt64) (resetAt : α → UInt64) : α → UInt64 :=
  match accepting.calloc with
  | some a => Function.update resetAt a time
  | none => resetAt

theorem Tidy.accept_effect {events : Events} {accepting : Accepting α} {o : Outcomes} (tidy : Tidy w xs)
    (possible : Possible w (.accept events accepting)) (meets : Meets callback w o (.accept events accepting))
    (ended : Returns (Conns.onAccept · w events accepting o) w') :
    w' = w ∨ ∃ a w₁, accepting.calloc = some a ∧ w.conn a = none ∧
      Effect (enrol w a) a o.times (beginRead fresh ((enrol w a).io a o)) w₁ ∧
      w' = { w₁ with numConns := w₁.numConns + 1 } := by
  obtain ⟨enough, ended⟩ := ended
  cases found : accepting.calloc with
  | none =>
    obtain rfl | ⟨a, w₁, found', -⟩ := onAccept_cases (ended enough (Nat.le_refl _))
    · exact .inl rfl
    · rw [found] at found'
      cases found'
  | some a =>
    have free := possible a found
    obtain ⟨-, busy⟩ := tidy.enlist free
    obtain ⟨enough', effect⟩ := busy.effect (meets a found)
    obtain rfl | ⟨a', w₁, found', settled, rfl⟩ := onAccept_cases (ended (max enough enough') (Nat.le_max_left ..))
    · exact .inl rfl
    · rw [found] at found'
      cases found'
      exact .inr ⟨a, w₁, rfl, free, effect _ w₁ (Nat.le_max_right ..) settled, rfl⟩

theorem Tidy.armed_accept {resetAt : α → UInt64} {events : Events} {accepting : Accepting α} {o : Outcomes}
    (tidy : Tidy w xs) (running : Armed w resetAt) (possible : Possible w (.accept events accepting))
    (meets : Meets callback w o (.accept events accepting))
    (ended : Returns (Conns.onAccept · w events accepting o) w') :
    Armed w' (acceptedAt accepting (o.times.getD 0 0) resetAt) := by
  obtain rfl | ⟨a, w₁, found, -, effect, rfl⟩ := tidy.accept_effect possible meets ended
  · -- an address that was offered is not in use
    intro b c open_
    have other : acceptedAt accepting (o.times.getD 0 0) resetAt b = resetAt b := by
      cases found : accepting.calloc with
      | none => simp only [acceptedAt, found]
      | some a =>
        simp only [acceptedAt, found]
        apply Function.update_of_ne
        rintro rfl
        rw [possible b found] at open_
        cases open_
    rw [other]
    exact running b c open_
  · rw [acceptedAt, found]
    have fresh : Armed w₁ (Function.update resetAt a (o.times.getD 0 0)) := by
      refine effect.armed (fun b c other open_ => ?_) fun kept => ?_
      · simp only [enrol, Function.update_of_ne other] at open_
        simp only [enrol, setTimer_payload, Function.update_of_ne other]
        exact running b c open_
      · rw [effect.mine 1 (beginRead_log kept)]
        rfl
    exact fresh

/-- The connection `a` is closed, and nothing else is changed. -/
structure Closed (w : Worker α σ) (a : α) (w' : Worker α σ) : Prop where
  conn : w'.conn = Function.update w.conn a none
  epoll : w'.epoll = Function.update w.epoll a none
  app : w'.app = w.app
  timers : ∀ b, b ≠ a → w'.timers.payload b = w.timers.payload b

omit [DecidableEq α] in
theorem closeConnection_log (w : Worker α σ) (a : α) (o : Outcomes) :
    (closeConnection (w.io a o)).2.timer = [.cancel] := by
  simp [closeConnection, delEvent_timer, Worker.io]

theorem Tidy.timeout_closed (tidy : Tidy w xs) (member : a ∈ xs) (deletable : Deletable w.timers a)
    (o : Outcomes) : ∃ enough, ∀ fuel w', enough ≤ fuel →
      Conns.timeoutCallback fuel w a o = .ok w' → Closed w a w' := by
  have apart : Apart a (closeConnection (w.io a o)).2.timer o.times w.timers := by
    rw [closeConnection_log]
    exact ⟨deletable, fun _ _ => trivial⟩
  obtain ⟨enough, effect⟩ := (tidy.busy member).effect apart
  refine ⟨enough, fun fuel w' bound ended => ?_⟩
  obtain ⟨-, -, settled⟩ := bind_ok ended
  have effect := effect fuel w' bound settled
  exact ⟨effect.conn, effect.epoll, effect.app.trans (delEvent_later _).app, effect.others⟩

/-- A timer that has run out closes its own connection. -/
theorem Tidy.expire_closed (tidy : Tidy w xs) (active : Active w.timers a)
    (deletable : Deletable w.timers a) (o : Outcomes) : ∃ enough, ∀ fuel w', enough ≤ fuel →
      Conns.expire fuel w a o = .ok w' → Closed w a w' := by
  have live : (w.conn a).isSome = true := (tidy.timers.memory a).mp ⟨_, active.choose_spec.1⟩
  obtain ⟨status, timers, ended, owned, inactive, target⟩ := tidy.timers.del live deletable
  rw [tidy.timers.target active] at target
  have others : ∀ b, b ≠ a → timers.payload b = w.timers.payload b :=
    fun b => delTimer_others tidy.timers live deletable ended
  have tidy₁ : Tidy { w with timers := timers } xs :=
    ⟨tidy.circular, tidy.allocated, tidy.listed, tidy.unlisted, owned⟩
  obtain ⟨enough, closed⟩ :=
    tidy₁.timeout_closed ((tidy.allocated a).mpr live) (fun set => absurd set inactive) o
  obtain ⟨enough', stopped⟩ := ended.map Prod.snd
  obtain ⟨n, found⟩ := (owned.memory a).mpr live
  refine ⟨max enough enough', fun fuel w' bound expired => ?_⟩
  have stopped : stopTimer fuel w.timers a = .ok timers := stopped fuel (by omega)
  rw [Conns.expire, stopped, ok_bind, timerAt_ok found, ok_bind] at expired
  simp only [target, owner] at expired
  obtain ⟨conn, epoll, app, same⟩ := closed fuel w' (by omega) expired
  exact ⟨conn, epoll, app, fun b other => (same b other).trans (others b other)⟩

theorem armed_of_closed {resetAt : α → UInt64} (running : Armed w resetAt)
    (closed : Closed w a w') : Armed w' resetAt := by
  intro b c found
  rw [closed.conn] at found
  by_cases same : b = a
  · rw [same, Function.update_self] at found
    cases found
  · rw [Function.update_of_ne same] at found
    rw [closed.timers b same]
    exact running b c found

theorem Tidy.io_effect {events : Events} {o : Outcomes} {c : Connection} {result : Option Connection × Io σ}
    (tidy : Tidy w xs) (meets : Meets callback w o (.io a events)) (found : w.conn a = some c)
    (code : Returns (Conn.ioCallback callback · events c (w.io a o)) result)
    (ended : Returns (Conns.ioCallback callback · w a events o) w') :
    Settled [] result ∧ Effect w a o.times result w' := by
  have member : a ∈ xs := by
    rw [tidy.allocated a, found]
    rfl
  obtain ⟨clear, apart⟩ := meets c found
  obtain ⟨enough, effect⟩ := (tidy.busy member).effect (apart result code)
  obtain ⟨enough', code⟩ := code
  obtain ⟨enough'', ended⟩ := ended
  have first := code (max enough (max enough' enough'')) (by omega)
  have last := ended (max enough (max enough' enough'')) (by omega)
  dsimp only at first last
  simp only [Conns.ioCallback, found, first] at last
  exact ⟨ioCallback_settled (tidy.listed a c found) rfl clear first,
    effect _ w' (Nat.le_max_left ..) (mapError_ok last)⟩

theorem Tidy.armed_io {resetAt : α → UInt64} {events : Events} {o : Outcomes} {c : Connection}
    {result : Option Connection × Io σ} (tidy : Tidy w xs) (running : Armed w resetAt)
    (meets : Meets callback w o (.io a events)) (found : w.conn a = some c)
    (code : Returns (Conn.ioCallback callback · events c (w.io a o)) result)
    (ended : Returns (Conns.ioCallback callback · w a events o) w') :
    Armed w' (Function.update resetAt a (resetTime o.times (resetAt a) (result.2.timer.count .reset))) := by
  obtain ⟨settled, effect⟩ := tidy.io_effect meets found code ended
  refine effect.armed (fun b c _ => running b c) fun kept => ?_
  -- a connection that stays open was only reset
  obtain ⟨c', open_⟩ := Option.isSome_iff_exists.mp kept
  obtain ⟨-, resets, log⟩ := settled.listed c' open_
  rw [List.nil_append] at log
  rw [effect.mine resets log, running a c found, rearmed_armed, log, List.count_replicate_self]

/-- Histories of a worker, with the times at which the connections were last reset. -/
inductive Timed (callback : Callback σ) (allowed : Worker α σ → Outcomes → Call α → Prop) :
    Worker α σ → (α → UInt64) → Prop where
  | start (app : σ) : Timed callback allowed (created app) fun _ => 0
  | accept {w w' : Worker α σ} {resetAt : α → UInt64} {events : Events} {accepting : Accepting α} {o : Outcomes}
      (run : Timed callback allowed w resetAt) (possible : Possible w (.accept events accepting))
      (meets : allowed w o (.accept events accepting))
      (ended : Returns (handle callback · w (.accept events accepting) o) w') :
      Timed callback allowed w' (acceptedAt accepting (o.times.getD 0 0) resetAt)
  | io {w w' : Worker α σ} {resetAt : α → UInt64} {a : α} {events : Events} {o : Outcomes} {c : Connection}
      {result : Option Connection × Io σ} (run : Timed callback allowed w resetAt)
      (possible : Possible w (.io a events)) (meets : allowed w o (.io a events)) (found : w.conn a = some c)
      (code : Returns (Conn.ioCallback callback · events c (w.io a o)) result)
      (ended : Returns (handle callback · w (.io a events) o) w') :
      Timed callback allowed w'
        (Function.update resetAt a (resetTime o.times (resetAt a) (result.2.timer.count .reset)))
  | timeout {w w' : Worker α σ} {resetAt : α → UInt64} {a : α} {o : Outcomes} (run : Timed callback allowed w resetAt)
      (possible : Possible w (.timeout a)) (meets : allowed w o (.timeout a))
      (ended : Returns (handle callback · w (.timeout a) o) w') : Timed callback allowed w' resetAt
  | expire {w w' : Worker α σ} {resetAt : α → UInt64} {a : α} {o : Outcomes} (run : Timed callback allowed w resetAt)
      (possible : Possible w (.expire a)) (meets : allowed w o (.expire a))
      (ended : Returns (handle callback · w (.expire a) o) w') : Timed callback allowed w' resetAt

section Runs

variable {allowed : Worker α σ → Outcomes → Call α → Prop} {resetAt : α → UInt64}

theorem Timed.run (timed : Timed callback allowed w resetAt) : Run callback allowed w := by
  induction timed with
  | start app => exact .start app
  | accept _ possible meets ended ih => exact .step _ _ ih possible meets ended
  | io _ possible meets _ _ ended ih => exact .step _ _ ih possible meets ended
  | timeout _ possible meets ended ih => exact .step _ _ ih possible meets ended
  | expire _ possible meets ended ih => exact .step _ _ ih possible meets ended

/-- Every history has its times. -/
theorem Run.timed (run : Run callback allowed w) : ∃ resetAt, Timed callback allowed w resetAt := by
  induction run with
  | start app => exact ⟨_, .start app⟩
  | @step w w' call o _ possible meets ended ih =>
    obtain ⟨resetAt, timed⟩ := ih
    cases call with
    | accept events accepting => exact ⟨_, .accept timed possible meets ended⟩
    | timeout a => exact ⟨_, .timeout timed possible meets ended⟩
    | expire a => exact ⟨_, .expire timed possible meets ended⟩
    | io a events =>
      cases found : w.conn a with
      | none =>
        obtain ⟨enough, ended⟩ := ended
        have last := ended enough (Nat.le_refl _)
        simp only [handle, ioCallback, found] at last
        cases last
      | some c =>
        obtain ⟨result, code⟩ := ends_of_returns ended c found
        exact ⟨_, .io timed possible meets found code ended⟩

theorem Timed.armed (timed : Timed callback (Meets callback) w resetAt) : Armed w resetAt := by
  induction timed with
  | start app =>
    intro a c found
    cases found
  | @accept w w' resetAt events accepting o before possible meets ended ih =>
    obtain ⟨xs, tidy, -⟩ := before.run.tidy
    obtain ⟨enough, ended⟩ := ended
    exact tidy.armed_accept ih possible meets ⟨enough, fun fuel bound => mapError_ok (ended fuel bound)⟩
  | io before possible meets found code ended ih =>
    obtain ⟨xs, tidy, -⟩ := before.run.tidy
    exact tidy.armed_io ih meets found code ended
  | @timeout w w' resetAt a o before possible meets ended ih =>
    obtain ⟨xs, tidy, -⟩ := before.run.tidy
    have member : a ∈ xs := (tidy.allocated a).mpr (Option.isSome_iff_ne_none.mpr possible)
    obtain ⟨enough, closed⟩ := tidy.timeout_closed member meets o
    obtain ⟨enough', ended⟩ := ended
    exact armed_of_closed ih (closed (max enough enough') w' (Nat.le_max_left ..)
      (mapError_ok (ended _ (Nat.le_max_right ..))))
  | @expire w w' resetAt a o before possible meets ended ih =>
    obtain ⟨xs, tidy, -⟩ := before.run.tidy
    obtain ⟨enough, closed⟩ := tidy.expire_closed possible meets o
    obtain ⟨enough', ended⟩ := ended
    exact armed_of_closed ih (closed (max enough enough') w' (Nat.le_max_left ..)
      (mapError_ok (ended _ (Nat.le_max_right ..))))

/-! ## The deadline -/

/-- Five seconds, in nanoseconds. -/
def grace : UInt64 := 5000000000

omit [DecidableEq α] in
theorem armed_trigger (now : UInt64) (a : α) : (armed now a).trigger = now + grace := by
  have interval : timeout.toUInt64 * 1000000 = grace := by decide
  rw [← interval]
  simp only [armed, updateTrigger, makeTimer, Timer.setActive]

omit [DecidableEq α] in
theorem armed_active (now : UInt64) (a : α) : (armed now a).isActive = true := isActive_setActive _

omit [DecidableEq α] in
theorem armed_oneshot (now : UInt64) (a : α) : (armed now a).isOneshot = true := by
  rw [armed, isOneshot_setActive, isOneshot_updateTrigger]
  simp only [makeTimer, Timer.isOneshot]
  decide

/-- Between any two callbacks, the timers in the tree are those of the open connections, and each of
them closes its connection once, five seconds after the connection was last reset. -/
theorem open_has_deadline (timed : Timed callback (Meets callback) w resetAt) :
    (∀ a, Linked w.timers a ↔ (w.conn a).isSome = true) ∧
      ∀ a c, w.conn a = some c → (w.timers.payload a).trigger = resetAt a + grace ∧
        (w.timers.payload a).isOneshot = true ∧
        (w.timers.payload a).target = (.timeoutCallback, some a) := by
  obtain ⟨xs, tidy, -⟩ := timed.run.tidy
  have running := timed.armed
  have active : ∀ a c, w.conn a = some c → Active w.timers a := by
    intro a c found
    rw [active_iff tidy.timers (by rw [found]; rfl), running a c found, armed_active]
  constructor
  · intro a
    obtain ⟨t, added, inv, exact, -⟩ := tidy.timers.tree
    rw [exact.linked a]
    constructor
    · rintro ⟨n, found, -⟩
      exact (tidy.timers.memory a).mp ⟨n, found⟩
    · intro live
      obtain ⟨c, found⟩ := Option.isSome_iff_exists.mp live
      exact active a c found
  · intro a c found
    refine ⟨?_, ?_, tidy.timers.target (active a c found)⟩
    · rw [running a c found, armed_trigger]
    · rw [running a c found, armed_oneshot]

theorem timed_oneClient : Timed notFound (Meets notFound) oneClient (acceptedAt ⟨true, true, some 1, true⟩ 1 fun _ => 0) :=
  .accept (o := atTime 1) (.start ()) (fun _ _ => rfl) (meets_arrival 1 rfl) (.of_add 9 fun _ => rfl)

/-- Clients that arrived at the times 1 and 2. -/
theorem timed_twoClients : ∃ resetAt, Timed notFound (Meets notFound) twoClients resetAt ∧
    resetAt 1 = 1 ∧ resetAt 2 = 2 := by
  have timed : Timed notFound (Meets notFound) twoClients
      (acceptedAt ⟨true, true, some 2, true⟩ 2 (acceptedAt ⟨true, true, some 1, true⟩ 1 fun _ => 0)) :=
    .accept (o := atTime 2) timed_oneClient (fun a same => by cases same; rfl) (meets_arrival 2 rfl)
      (.of_add 9 fun _ => rfl)
  exact ⟨_, timed, rfl, rfl⟩

theorem open_has_deadline_two : Linked twoClients.timers 1 ∧ Linked twoClients.timers 2 ∧
    (twoClients.timers.payload 1).trigger = 1 + grace ∧ (twoClients.timers.payload 2).trigger = 2 + grace := by
  obtain ⟨resetAt, timed, first, second⟩ := timed_twoClients
  obtain ⟨linked, deadline⟩ := open_has_deadline timed
  refine ⟨(linked 1).mpr rfl, (linked 2).mpr rfl, ?_, ?_⟩
  · rw [(deadline 1 _ rfl).1, first]
  · rw [(deadline 2 _ rfl).1, second]

end Runs

end Cask.Conns
