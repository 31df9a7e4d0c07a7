import Cask.Connection.Service
import Mathlib.Logic.Function.Basic

/-! # Many clients

A worker calls `io_callback` for one connection after the other, in any order that epoll has.  The
connections have nothing in common but the state of the routes' callbacks.  A callback that reads does
not return before it has a whole request, so that requests are answered one at a time; a response may
be sent in several callbacks, with those of other connections in between.
-/

namespace Cask.Conn

open Storage Http Event Fuel

variable {α σ τ : Type}

/-! ## Turns -/

/-- The connections, what each of them sees of the world, and the state that they share. -/
structure Crowd (α σ : Type) where
  conn : α → Option Connection
  io : α → Io σ
  app : σ

def Crowd.view (crowd : Crowd α σ) (a : α) : Io σ := { crowd.io a with app := crowd.app }

/-- The descriptor is ready for what the connection waits for. -/
def Fires (events : Events) (c : Connection) : Prop :=
  (c.state = .stateIn → events.epollin = true) ∧ (c.state = .stateOut → events.epollout = true)

section Turns

variable [DecidableEq α]

def Crowd.put (crowd : Crowd α σ) (a : α) (result : Option Connection × Io σ) : Crowd α σ where
  conn := Function.update crowd.conn a result.1
  io := Function.update crowd.io a result.2
  app := result.2.app

/-- One callback after the other. -/
inductive Turns (callback : Callback σ) (start : Crowd α σ) : Crowd α σ → Prop where
  | refl : Turns callback start start
  | turn {crowd : Crowd α σ} {a : α} {c : Connection} {events : Events} {fuel : Nat} {result : Option Connection × Io σ}
      (earlier : Turns callback start crowd) (found : crowd.conn a = some c) (fires : Fires events c)
      (ended : ioCallback callback fuel events c (crowd.view a) = .ok result) :
      Turns callback start (crowd.put a result)

end Turns

/-! ## One turn -/

section Turn

variable {callback : Callback σ} {c : Connection} {io : Io σ} {fuel : Nat} {result : Option Connection × Io σ}

theorem Waits.with_app (waits : Waits c io) (app : σ) : Waits c { io with app := app } := by
  obtain ⟨⟨state, request, empty, cursor, active, interest, ctls⟩, granted, polite⟩ := waits
  exact ⟨⟨state, request, empty, cursor, active, interest, ctls⟩, granted, polite⟩

theorem Pending.with_app {text before : List UInt8} {keepAlive : Bool} (pending : Pending text before keepAlive c io)
    (app : σ) : Pending text before keepAlive c { io with app := app } :=
  ⟨pending.state, ⟨pending.ready.entry, pending.ready.granted⟩, pending.content, pending.cursor, pending.sent,
    pending.flag⟩

/-- `read_data` returns what its last round leaves with. -/
theorem Rounds.readData_returns {cur : Connection × Io σ} {last : Option Connection × Io σ}
    (rounds : Rounds callback (c, io) cur) (done : readRound callback cur = .ok (.done last)) :
    Returns (readData callback · c io) last := by
  have rest : Returns (loop Stuck.spent (readRound callback) · cur) last := .loop_done done
  clear done
  induction rounds with
  | refl => exact rest
  | step _ round ih => exact ih (.loop_again round rest)

theorem Rounds.readData_eq {cur : Connection × Io σ} {last : Option Connection × Io σ}
    (rounds : Rounds callback (c, io) cur) (done : readRound callback cur = .ok (.done last))
    (ended : readData callback fuel c io = .ok result) : result = last := by
  obtain ⟨enough, returns⟩ := rounds.readData_returns done
  have more := loop_mono ended (Nat.le_max_left fuel enough)
  exact Except.ok.inj (more.symm.trans (returns _ (Nat.le_max_right ..)))

/-- The callback that reads a request also begins its response. -/
theorem Exchange.read_turn {reply : Reply σ} {last : Option Connection × Io σ}
    (exchange : Exchange callback c io reply last) (waits : Waits c io)
    (ended : readData callback fuel c io = .ok result) :
    Exact (responseText reply.req.version (c.keepAlive || reply.req.version == .http11) reply.status reply.body)
        io.sent (c.keepAlive || reply.req.version == .http11) result ∧
      result.2.app = last.2.app ∧ result.2.recvs = last.2.recvs ∧
      result.2.reallocs <:+ io.reallocs ∧ result.2.sends <:+ io.sends := by
  cases exchange with
  | @intro c₁ c₂ io₁ io₂ req status body text app _ rounds stop parsed answered run finished sent =>
    have reading := rounds.reading.trans (blocked_reading stop)
    have granted := waits.granted.suffix reading.reallocs
    have polite : Polite io₂.sends := by
      rw [reading.sends]
      exact waits.polite
    have ready : Ready { c₂ with req := req, keepAlive := c₂.keepAlive || req.version == .http11 }
        { io₂ with app := app } := ⟨(reading.ready waits.idle.ready).entry, (reading.ready waits.idle.ready).granted⟩
    have filled := fillResponse_granted (c₂.buffer, io₂.reallocs) granted req.version
      (c₂.keepAlive || req.version == .http11) status body
    have starts := sendResponse_starts ready (responseText_ne_nil _ _ _ _) filled.content
    -- the last round of `read_data` calls the route's callback
    have done : readRound callback (c₁, io₁) = .ok (.done (sendResponse
        { c₂ with req := req, keepAlive := c₂.keepAlive || req.version == .http11 } { io₂ with app := app }
        status body)) := by
      rw [readRound_blocked stop, onBlocked, parsed]
      simp only [answer, answered]
    have begun : Responding callback { c₂ with req := req, keepAlive := c₂.keepAlive || req.version == .http11 }
        { io₂ with app := app } status body result := by
      rw [rounds.readData_eq done ended]
      exact .start
    have exact := begun.exact starts polite
    have later := begun.later
    dsimp only at exact
    rw [reading.keepAlive, reading.sent] at exact
    refine ⟨exact, later.app.trans run.later.app.symm, later.recvs.trans run.later.recvs.symm,
      later.reallocs.trans reading.reallocs, ?_⟩
    rw [← reading.sends]
    exact later.sends

/-- Without any more bytes, `read_data` does not return. -/
theorem Waits.not_read (waits : Waits c io) (nothing : io.recvs = []) : readData callback fuel c io ≠ .ok result := by
  have inside : Inside c.buffer := by
    rw [Inside, waits.idle.empty]
    exact Nat.zero_le _
  have untouched := waits.untouched
  have granted := waits.granted
  clear waits
  induction fuel generalizing c io with
  | zero =>
    intro ended
    cases ended
  | succ fuel ih =>
    obtain ⟨buf, reallocs, reserved, same, inside', granted'⟩ := reserve_granted granted inside
    have stop : blocked (c, io) = some ({ c with buffer := buf }, { io with reallocs := reallocs }) := by
      simp only [blocked, reserved, nothing]
    have empty : buf.size = 0 := (content_size same).trans untouched.empty
    have parsed : parseRequest c.req buf = (.uf, zeroed) :=
      parseRequest_untouched (c := { c with buffer := buf }) ⟨empty, untouched.request⟩
    have round : readRound callback (c, io) =
        .ok (.again ({ c with buffer := buf, req := zeroed }, { io with reallocs := reallocs })) := by
      rw [readRound_blocked stop, onBlocked, parsed]
    have next : readData callback (fuel + 1) c io =
        readData callback fuel { c with buffer := buf, req := zeroed } { io with reallocs := reallocs } := by
      rw [readData, loop, round]
      rfl
    rw [next]
    exact ih nothing inside' ⟨empty, rfl⟩ granted'

/-- With a request to come, it does. -/
theorem Exchange.returns {reply : Reply σ} {last : Option Connection × Io σ}
    (exchange : Exchange callback c io reply last) : ∃ fuel result, readData callback fuel c io = .ok result := by
  cases exchange with
  | @intro c₁ c₂ io₁ io₂ req status body text app _ rounds stop parsed answered run finished sent =>
    have done : readRound callback (c₁, io₁) = .ok (.done (answer callback c₂ io₂ req)) := by
      rw [readRound_blocked stop, onBlocked, parsed]
    obtain ⟨enough, returns⟩ := rounds.readData_returns done
    exact ⟨enough, _, returns enough (Nat.le_refl _)⟩

end Turn

/-! ## One client -/

/-- A client that has been given some responses: its connection waits and all of them have been sent,
or the last one is on its way. -/
inductive Attended (before : List UInt8) : List (HttpStatus × List UInt8) → Option Connection × Io σ → Prop where
  | waits {responses : List (HttpStatus × List UInt8)} {c : Connection} {io : Io σ} (waits : Waits c io)
      (sent : io.sent = before ++ (responses.map keptText).flatten) : Attended before responses (some c, io)
  | sends {responses : List (HttpStatus × List UInt8)} {last : HttpStatus × List UInt8} {c : Connection} {io : Io σ}
      (pending : Pending (keptText last) (before ++ (responses.map keptText).flatten) true c io)
      (granted : Granted io.reallocs) (polite : Polite io.sends) : Attended before (responses ++ [last]) (some c, io)

section Attended

variable {before : List UInt8} {responses : List (HttpStatus × List UInt8)} {last : HttpStatus × List UInt8}
  {c : Connection} {io : Io σ} {result : Option Connection × Io σ}

theorem Attended.with_app (attended : Attended before responses (some c, io)) (app : σ) :
    Attended before responses (some c, { io with app := app }) := by
  cases attended with
  | waits waits sent => exact .waits (waits.with_app app) sent
  | sends pending granted polite => exact .sends (pending.with_app app) granted polite

theorem Attended.state {conn : Option Connection} (attended : Attended before responses (conn, io)) :
    ∃ c, conn = some c ∧ (c.state = .stateIn ∨ c.state = .stateOut) := by
  cases attended with
  | waits waits => exact ⟨_, rfl, .inl waits.idle.state⟩
  | sends pending => exact ⟨_, rfl, .inr pending.state⟩

theorem Attended.waiting (attended : Attended before responses (some c, io)) (reads : c.state = .stateIn) :
    Waits c io := by
  cases attended with
  | waits waits => exact waits
  | sends pending =>
    rw [pending.state] at reads
    cases reads

/-- What has been sent is the beginning of the responses, and all of them when the connection reads. -/
theorem Attended.sent (attended : Attended before responses (some c, io)) :
    io.sent <+: before ++ (responses.map keptText).flatten ∧
      (c.state = .stateIn → io.sent = before ++ (responses.map keptText).flatten) := by
  cases attended with
  | waits waits sent => exact ⟨sent ▸ List.prefix_refl _, fun _ => sent⟩
  | @sends responses last _ _ pending =>
    rw [List.map_append, List.flatten_append, List.map_singleton, List.flatten_singleton, ← List.append_assoc,
      pending.sent]
    refine ⟨(List.prefix_append_right_inj _).mpr (List.take_prefix _ _), fun reads => ?_⟩
    rw [pending.state] at reads
    cases reads

theorem Attended.of_exact (exact : Exact (keptText last) (before ++ (responses.map keptText).flatten) true result)
    (granted : Granted result.2.reallocs) (polite : Polite result.2.sends) :
    Attended before (responses ++ [last]) result := by
  obtain ⟨conn, io'⟩ := result
  obtain complete | ⟨c', io'', same, pending, -⟩ := exact
  · obtain ⟨c', rfl, idle, -⟩ := complete.kept rfl
    refine .waits ⟨idle, granted, polite⟩ ?_
    rw [complete.sent]
    simp
  · cases same
    exact .sends pending granted polite

/-- `EPOLLOUT`: more of the response is sent, or the rest of it. -/
theorem Attended.out (attended : Attended before responses (some c, io)) (state : c.state = .stateOut) :
    Attended before responses (sendLoop io.sends c io) ∧
      ((∃ c', (sendLoop io.sends c io).1 = some c' ∧ c'.state = .stateIn) ∨
        (sendLoop io.sends c io).2.sends.length < io.sends.length) := by
  cases attended with
  | waits waits =>
    rw [waits.idle.state] at state
    cases state
  | sends pending granted polite =>
    have later := sendLoop_later io.sends c io
    have moved := sendLoop_pending io.sends pending polite
    refine ⟨.of_exact ?_ (granted.suffix later.reallocs) (polite.suffix later.sends), ?_⟩
    · obtain complete | ⟨c', io', left, pending', polite', -⟩ := moved
      · exact .inl complete
      · exact .inr ⟨c', io', left, pending', polite'⟩
    · obtain complete | ⟨c', io', left, -, -, shorter⟩ := moved
      · obtain ⟨c', same, idle, -⟩ := complete.kept rfl
        exact .inl ⟨c', same, idle.state⟩
      · rw [left]
        exact .inr shorter

end Attended

/-! ## All clients -/

/-- A message that a client sent, and the response that it is given. -/
structure LogEntry (α : Type) where
  client : α
  message : Message
  response : HttpStatus × List UInt8

theorem Service.run_append_one (service : Service τ) (state : τ) (messages : List Message) (message : Message) :
    service.run state (messages ++ [message]) =
      ((service.run state messages).1 ++
        [((service (service.run state messages).2 message).1, (service (service.run state messages).2 message).2.1)],
        (service (service.run state messages).2 message).2.2) := by
  induction messages generalizing state with
  | nil => rfl
  | cons first messages ih => simp [Service.run, ih]

theorem Service.Allows.last {service : Service τ} {allowed : τ → Message → Prop} {state : τ}
    {messages : List Message} {message : Message} (allows : service.Allows allowed state (messages ++ [message])) :
    allowed (service.run state messages).2 message := by
  induction messages generalizing state with
  | nil => exact allows.1
  | cons first messages ih => exact ih allows.2

section Crowd

variable [DecidableEq α]

/-- The part of the log that concerns one client. -/
def own (a : α) (log : List (LogEntry α)) : List (LogEntry α) := log.filter (·.client = a)

theorem own_append_self (a : α) (log : List (LogEntry α)) (message : Message) (response : HttpStatus × List UInt8) :
    own a (log ++ [⟨a, message, response⟩]) = own a log ++ [⟨a, message, response⟩] := by
  simp [own]

theorem own_append_other {a b : α} (other : b ≠ a) (log : List (LogEntry α)) (message : Message)
    (response : HttpStatus × List UInt8) : own b (log ++ [⟨a, message, response⟩]) = own b log := by
  simp [own, other.symm]

/-- Connections that wait, and the messages that arrive on them. -/
structure Visited (callback : Callback σ) (messages : α → List (Message × List Recv)) (start : Crowd α σ) : Prop where
  waits : ∀ a, ∃ c, start.conn a = some c ∧ Waits c (start.io a)
  regular : ∀ a, ∀ part ∈ messages a, Regular part.1
  brings : ∀ a, ∀ part ∈ messages a, Brings part.1 part.2
  recvs : ∀ a, (start.io a).recvs = ((messages a).map (·.2)).flatten
  -- whenever a message comes, the memory behind it does not look like the end of a header block
  clean : ∀ crowd a c part rest, Turns callback start crowd → crowd.conn a = some c → c.state = .stateIn →
    part ∈ messages a → (crowd.io a).recvs = part.2 ++ rest → CleanStops callback c (crowd.view a) part.1

/-- The service is given the messages of all clients, one after the other as the log has them, and
every client the responses to its own. -/
structure Underway (service : Service τ) (state : τ) (rel : σ → τ → Prop) (messages : α → List (Message × List Recv))
    (start crowd : Crowd α σ) (log : List (LogEntry α)) : Prop where
  responses : (service.run state (log.map (·.message))).1 = log.map (·.response)
  related : rel crowd.app (service.run state (log.map (·.message))).2
  client : ∀ a, Attended (start.io a).sent ((own a log).map (·.response)) (crowd.conn a, crowd.io a)
  rest : ∀ a, ∃ done pending, messages a = done ++ pending ∧ done.map (·.1) = (own a log).map (·.message) ∧
    (crowd.io a).recvs = (pending.map (·.2)).flatten

theorem Crowd.put_conn_of_ne {a b : α} (other : b ≠ a) (crowd : Crowd α σ) (result : Option Connection × Io σ) :
    (crowd.put a result).conn b = crowd.conn b := Function.update_of_ne other ..

theorem Crowd.put_io_of_ne {a b : α} (other : b ≠ a) (crowd : Crowd α σ) (result : Option Connection × Io σ) :
    (crowd.put a result).io b = crowd.io b := Function.update_of_ne other ..

@[simp] theorem Crowd.put_conn_self (a : α) (crowd : Crowd α σ) (result : Option Connection × Io σ) :
    (crowd.put a result).conn a = result.1 := Function.update_self ..

@[simp] theorem Crowd.put_io_self (a : α) (crowd : Crowd α σ) (result : Option Connection × Io σ) :
    (crowd.put a result).io a = result.2 := Function.update_self ..

variable {service : Service τ} {state : τ} {rel : σ → τ → Prop} {allowed : τ → Message → Prop} {callback : Callback σ}
  {messages : α → List (Message × List Recv)} {start crowd : Crowd α σ} {log : List (LogEntry α)} {a : α}
  {c : Connection} {fuel : Nat} {result : Option Connection × Io σ}

theorem Visited.underway (visited : Visited callback messages start) (related : rel start.app state) :
    Underway service state rel messages start start [] := by
  refine ⟨rfl, related, fun a => ?_, fun a => ⟨[], messages a, rfl, rfl, visited.recvs a⟩⟩
  obtain ⟨c, found, waits⟩ := visited.waits a
  rw [found]
  exact .waits waits (by simp [own])

/-- A turn of a client that sends. -/
theorem Underway.out (underway : Underway service state rel messages start crowd log) (found : crowd.conn a = some c)
    (out : c.state = .stateOut) :
    Underway service state rel messages start (crowd.put a (sendLoop (crowd.view a).sends c (crowd.view a))) log := by
  have attended := underway.client a
  rw [found] at attended
  have kept := ((attended.with_app crowd.app).out out).1
  have later := sendLoop_later (crowd.view a).sends c (crowd.view a)
  refine ⟨underway.responses, ?_, fun b => ?_, fun b => ?_⟩
  · have same : (crowd.put a (sendLoop (crowd.view a).sends c (crowd.view a))).app = crowd.app := later.app
    rw [same]
    exact underway.related
  · by_cases same : b = a
    · subst same
      rw [Crowd.put_conn_self, Crowd.put_io_self]
      exact kept
    · rw [Crowd.put_conn_of_ne same, Crowd.put_io_of_ne same]
      exact underway.client b
  · by_cases same : b = a
    · subst same
      rw [Crowd.put_io_self, later.recvs]
      exact underway.rest b
    · rw [Crowd.put_io_of_ne same]
      exact underway.rest b

/-- A client that waits has a request to come, or none any more. -/
theorem Underway.next (visited : Visited callback messages start) (turns : Turns callback start crowd)
    (underway : Underway service state rel messages start crowd log) (found : crowd.conn a = some c)
    (reads : c.state = .stateIn) :
    Waits c (crowd.view a) ∧ ((crowd.io a).recvs = [] ∨ ∃ done part pending reply last,
      messages a = done ++ part :: pending ∧ done.map (·.1) = (own a log).map (·.message) ∧
      (crowd.io a).recvs = part.2 ++ (pending.map (·.2)).flatten ∧
      Exchange callback c (crowd.view a) reply last ∧ Handed part.1 reply.buffer reply.req ∧
      last.2.recvs = (pending.map (·.2)).flatten) := by
  have attended := underway.client a
  rw [found] at attended
  have waits : Waits c (crowd.view a) := (attended.waiting reads).with_app crowd.app
  refine ⟨waits, ?_⟩
  obtain ⟨done, pending, all, before, recvs⟩ := underway.rest a
  cases pending with
  | nil => exact .inl recvs
  | cons part pending =>
    have member : part ∈ messages a := by simp [all]
    obtain ⟨plain, -, small⟩ := visited.regular a part member
    have coming : (crowd.io a).recvs = part.2 ++ (pending.map (·.2)).flatten := by simpa using recvs
    have clean := visited.clean crowd a c part _ turns found reads member coming
    obtain ⟨reply, last, exchange, handed, left⟩ :=
      exchange_handed plain small waits (visited.brings a part member) coming clean
    exact .inr ⟨done, part, pending, reply, last, all, before, coming, exchange, handed, left⟩

/-- The messages of a log are those of every client, in its order. -/
def Faithful (messages : α → List (Message × List Recv)) (log : List (LogEntry α)) : Prop :=
  ∀ a, (own a log).map (·.message) <+: (messages a).map (·.1)

theorem Underway.faithful (underway : Underway service state rel messages start crowd log) : Faithful messages log := by
  intro a
  obtain ⟨done, pending, all, before, -⟩ := underway.rest a
  rw [all, List.map_append, before]
  exact List.prefix_append _ _

/-- A turn of a client that reads: the next request is logged, with its response. -/
theorem Underway.read (implements : Implements callback service rel allowed)
    (admits : ∀ log, Faithful messages log → service.Allows allowed state (log.map (·.message)))
    (visited : Visited callback messages start) (turns : Turns callback start crowd)
    (underway : Underway service state rel messages start crowd log) (found : crowd.conn a = some c)
    (reads : c.state = .stateIn) (ended : readData callback fuel c (crowd.view a) = .ok result) :
    ∃ message response,
      Underway service state rel messages start (crowd.put a result) (log ++ [⟨a, message, response⟩]) ∧
      result.2.recvs.length < (crowd.io a).recvs.length := by
  obtain ⟨waits, nothing | ⟨done, part, pending, reply, last, all, before, coming, exchange, handed, left⟩⟩ :=
    underway.next visited turns found reads
  · exact absurd ended (waits.not_read nothing)
  have member : part ∈ messages a := by simp [all]
  have regular := visited.regular a part member
  -- the log with this message has only messages that the service admits
  have faithful : ∀ response, Faithful messages (log ++ [⟨a, part.1, response⟩]) := by
    intro response b
    by_cases same : b = a
    · subst same
      rw [own_append_self, List.map_append, ← before, all]
      simp
    · rw [own_append_other same]
      exact underway.faithful b
  have allows := admits _ (faithful (.status200, []))
  rw [List.map_append] at allows
  obtain ⟨app', related, answered⟩ := implements _ _ part.1 _ _ underway.related allows.last regular handed
  generalize responded : service (service.run state (log.map (·.message))).2 part.1 = response at related answered
  have same := exchange.app.symm.trans answered
  simp only [Prod.mk.injEq] at same
  obtain ⟨status, body, app⟩ := same
  obtain ⟨exact, app'', recvs, reallocs, sends⟩ := exchange.read_turn waits ended
  rw [handed.version, regular.2.1, status, body] at exact
  simp only [beq_self_eq_true, Bool.or_true] at exact
  have attended := underway.client a
  rw [found] at attended
  have sent : (crowd.view a).sent = _ := attended.sent.2 reads
  rw [sent] at exact
  refine ⟨part.1, (response.1, response.2.1), ⟨?_, ?_, fun b => ?_, fun b => ?_⟩, ?_⟩
  · rw [List.map_append, List.map_append, List.map_singleton, Service.run_append_one, underway.responses, responded]
    rfl
  · rw [List.map_append, List.map_singleton, Service.run_append_one, responded]
    have same : (crowd.put a result).app = app' := app''.trans app
    rw [same]
    exact related
  · by_cases same : b = a
    · subst same
      rw [Crowd.put_conn_self, Crowd.put_io_self, own_append_self, List.map_append]
      exact .of_exact exact (waits.granted.suffix reallocs) (waits.polite.suffix sends)
    · rw [Crowd.put_conn_of_ne same, Crowd.put_io_of_ne same, own_append_other same]
      exact underway.client b
  · by_cases same : b = a
    · subst same
      rw [Crowd.put_io_self, own_append_self]
      refine ⟨done ++ [part], pending, by simp [all], ?_, recvs.trans left⟩
      rw [List.map_append, List.map_append, before]
      rfl
    · rw [Crowd.put_io_of_ne same, own_append_other same]
      exact underway.rest b
  · obtain ⟨-, front, chunk, parts, -⟩ := visited.brings a part member
    rw [recvs, left, coming, List.length_append, parts]
    simp

/-! ## Runs -/

theorem ioCallback_in {events : Events} {io : Io σ} (reads : c.state = .stateIn) (readable : events.epollin = true) :
    ioCallback callback fuel events c io = readData callback fuel c io := by
  rw [ioCallback, reads]
  dsimp only
  rw [if_pos readable]

theorem Turns.trans {crowd' : Crowd α σ} (earlier : Turns callback start crowd) (later : Turns callback crowd crowd') :
    Turns callback start crowd' := by
  induction later with
  | refl => exact earlier
  | turn _ found fires ended ih => exact .turn ih found fires ended

section Run

variable (implements : Implements callback service rel allowed)
  (admits : ∀ log, Faithful messages log → service.Allows allowed state (log.map (·.message)))
  (visited : Visited callback messages start)

include implements admits visited

theorem Turns.underway (related : rel start.app state) (turns : Turns callback start crowd) :
    ∃ log, Underway service state rel messages start crowd log := by
  induction turns with
  | refl => exact ⟨[], visited.underway related⟩
  | @turn crowd a c events fuel result earlier found fires ended ih =>
    obtain ⟨log, underway⟩ := ih
    obtain ⟨c', found', reads | out⟩ := (underway.client a).state
    · cases found.symm.trans found'
      rw [ioCallback_in reads (fires.1 reads)] at ended
      obtain ⟨message, response, underway', -⟩ := underway.read implements admits visited earlier found reads ended
      exact ⟨_, underway'⟩
    · cases found.symm.trans found'
      rw [ioCallback_out fuel out (fires.2 out)] at ended
      cases ended
      exact ⟨log, underway.out found out⟩

variable (callback) in
omit implements admits visited in
/-- A response is sent to its end. -/
theorem Underway.flush (underway : Underway service state rel messages start crowd log) (a : α) :
    ∃ crowd', Turns callback crowd crowd' ∧ Underway service state rel messages start crowd' log ∧
      (crowd'.io a).recvs = (crowd.io a).recvs ∧ ∃ c, crowd'.conn a = some c ∧ c.state = .stateIn := by
  induction bound : (crowd.io a).sends.length using Nat.strongRecOn generalizing crowd with
  | _ length ih =>
    obtain ⟨c, found, reads | out⟩ := (underway.client a).state
    · exact ⟨crowd, .refl, underway, rfl, c, found, reads⟩
    · have attended := underway.client a
      rw [found] at attended
      obtain ⟨-, moved⟩ := (attended.with_app crowd.app).out out
      have fires : Fires ⟨false, true⟩ c := ⟨fun reads => absurd (reads.symm.trans out) (by decide), fun _ => rfl⟩
      have turn : Turns callback crowd (crowd.put a (sendLoop (crowd.view a).sends c (crowd.view a))) :=
        .turn .refl found fires (ioCallback_out 0 out rfl)
      have later := sendLoop_later (crowd.view a).sends c (crowd.view a)
      have underway' := underway.out found out
      obtain ⟨c', found', reads⟩ | shorter := moved
      · exact ⟨_, turn, underway', by rw [Crowd.put_io_self, later.recvs]; rfl, c',
          by rw [Crowd.put_conn_self]; exact found', reads⟩
      · obtain ⟨crowd', turns, rest, recvs, waiting⟩ :=
          ih _ (bound ▸ shorter) underway' (by rw [Crowd.put_io_self]; rfl)
        refine ⟨crowd', turn.trans turns, rest, ?_, waiting⟩
        rw [recvs, Crowd.put_io_self, later.recvs]
        rfl

/-- From wherever a run has come to, all requests of a client can be served. -/
theorem Underway.finish (turns : Turns callback start crowd)
    (underway : Underway service state rel messages start crowd log) (a : α) :
    ∃ crowd' log', Turns callback crowd crowd' ∧ Underway service state rel messages start crowd' log' ∧ log <+: log' ∧
      (own a log').map (·.message) = (messages a).map (·.1) ∧ ∃ c, crowd'.conn a = some c ∧ c.state = .stateIn := by
  induction bound : (crowd.io a).recvs.length using Nat.strongRecOn generalizing crowd log with
  | _ length ih =>
    obtain ⟨crowd₁, flushed, underway₁, recvs₁, c, found, reads⟩ := underway.flush callback a
    have turns₁ := turns.trans flushed
    obtain ⟨waits, nothing | ⟨done, part, pending, reply, last, all, before, coming, exchange, handed, left⟩⟩ :=
      underway₁.next visited turns₁ found reads
    · -- nothing is to come
      refine ⟨crowd₁, log, flushed, underway₁, List.prefix_refl _, ?_, c, found, reads⟩
      obtain ⟨done, pending, all, before, recvs⟩ := underway₁.rest a
      cases pending with
      | nil => rw [all, List.append_nil, before]
      | cons part pending =>
        obtain ⟨-, front, chunk, parts, -⟩ := visited.brings a part (by simp [all])
        rw [nothing, List.map_cons, List.flatten_cons, parts] at recvs
        simp at recvs
    · obtain ⟨fuel, result, ended⟩ := exchange.returns
      obtain ⟨message, response, underway₂, fewer⟩ :=
        underway₁.read implements admits visited turns₁ found reads ended
      have fires : Fires ⟨true, false⟩ c := ⟨fun _ => rfl, fun out => absurd (out.symm.trans reads) (by decide)⟩
      have turn : Turns callback crowd₁ (crowd₁.put a result) :=
        .turn .refl found fires ((ioCallback_in reads rfl).trans ended)
      rw [recvs₁, bound] at fewer
      obtain ⟨crowd', log', turns', underway', longer, rest⟩ :=
        ih _ fewer (turns₁.trans turn) underway₂ (by rw [Crowd.put_io_self])
      exact ⟨crowd', log', (flushed.trans turn).trans turns', underway', (List.prefix_append _ _).trans longer, rest⟩

end Run

end Crowd

end Cask.Conn
