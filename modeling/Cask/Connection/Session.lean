import Cask.Connection.Response

/-! # Sessions

What happens on one connection over time: rounds of `read_data` up to the moment when a request
is complete, the answer of the route's callback, the response with all the `EPOLLOUT` callbacks
that it takes, and then the next request.
-/

namespace Cask.Conn

open Storage Http Event Fuel

variable {σ : Type} {callback : Callback σ} {c c' : Connection} {io io' : Io σ}

/-! ## What is used up -/

theorem Polite.suffix {sends sends' : List Send} (polite : Polite sends) (rest : sends' <:+ sends) :
    Polite sends' :=
  fun outcome member => polite outcome (rest.mem member)

theorem Granted.suffix {reallocs reallocs' : List (Option (List UInt8))}
    (granted : Granted reallocs) (rest : reallocs' <:+ reallocs) : Granted reallocs' :=
  fun outcome member => granted outcome (rest.mem member)

/-- What sending uses up: answers of `send` and of `realloc`, and none of `recv`.  The state of the
callbacks stays as it is. -/
structure Later (io io' : Io σ) : Prop where
  app : io'.app = io.app
  recvs : io'.recvs = io.recvs
  sends : io'.sends <:+ io.sends
  reallocs : io'.reallocs <:+ io.reallocs

theorem Later.trans {io'' : Io σ} (first : Later io io') (second : Later io' io'') :
    Later io io'' :=
  ⟨second.app.trans first.app, second.recvs.trans first.recvs, second.sends.trans first.sends,
    second.reallocs.trans first.reallocs⟩

theorem later_of_eq (app : io'.app = io.app) (recvs : io'.recvs = io.recvs) (sends : io'.sends = io.sends)
    (reallocs : io'.reallocs = io.reallocs) : Later io io' :=
  ⟨app, recvs, sends ▸ List.suffix_refl _, reallocs ▸ List.suffix_refl _⟩

theorem delEvent_later (io : Io σ) : Later io (delEvent io).2 := by
  unfold delEvent
  split <;> exact later_of_eq rfl rfl rfl rfl

theorem addEvent_later (io : Io σ) (interest : Interest) : Later io (addEvent io interest).2 := by
  unfold addEvent
  split <;> exact later_of_eq rfl rfl rfl rfl

theorem closeConnection_later (io : Io σ) : Later io (closeConnection io).2 :=
  have later := delEvent_later io
  ⟨later.app, later.recvs, later.sends, later.reallocs⟩

theorem resetConnection_later (c : Connection) (io : Io σ) :
    Later io (resetConnection c io).2.2 := by
  rw [resetConnection, connectionTimer_inactive, if_neg Bool.false_ne_true]
  dsimp only
  split
  · have later := delEvent_later { io with timer := io.timer ++ [.reset] }
    cases deleted : delEvent { io with timer := io.timer ++ [.reset] } with
    | mk status io' =>
      rw [deleted] at later
      cases status <;> exact ⟨later.app, later.recvs, later.sends, later.reallocs⟩
  · exact later_of_eq rfl rfl rfl rfl

/-- After `reset_connection`, the event is added or the connection closed. -/
theorem beginRead_later (c : Connection) (io : Io σ) : Later io (beginRead c io).2 := by
  have reset := resetConnection_later c io
  rw [beginRead]
  cases done : resetConnection c io with
  | mk status rest =>
    obtain ⟨c', io'⟩ := rest
    rw [done] at reset
    cases status with
    | err => exact reset.trans (closeConnection_later io')
    | ok =>
      have event := addEvent_later io' .epollin
      dsimp only
      cases added : addEvent io' .epollin with
      | mk status io'' =>
        rw [added] at event
        cases status with
        | ok => exact reset.trans event
        | err => exact (reset.trans event).trans (closeConnection_later io'')

theorem finishSend_later (c : Connection) (io : Io σ) : Later io (finishSend c io).2 := by
  rw [finishSend]
  split
  · exact beginRead_later c io
  · exact closeConnection_later io

theorem sendLoop_later (sends : List Send) (c : Connection) (io : Io σ) :
    Later { io with sends := sends } (sendLoop sends c io).2 := by
  induction sends generalizing c io with
  | nil =>
    rw [sendLoop]
    apply Later.trans _ (finishSend_later _ _)
    exact later_of_eq rfl rfl rfl rfl
  | cons outcome sends ih =>
    have next : ∀ sent, Later { io with sends := outcome :: sends } { io with sends := sends, sent := sent } :=
      fun _ => ⟨rfl, rfl, List.suffix_cons _ _, List.suffix_refl _⟩
    cases outcome with
    | again => exact next io.sent
    | error => exact (next io.sent).trans (closeConnection_later _)
    | accept room =>
      rw [sendLoop]
      dsimp only
      generalize min (room + 1) _ = numSent
      split
      · exact (next _).trans (finishSend_later _ _)
      · exact (next _).trans (ih _ { io with sends := sends, sent := io.sent ++ c.buffer.data.slice c.writeBytes numSent })

theorem sendData_later (c : Connection) (io : Io σ) : Later io (sendData c io).2 :=
  sendLoop_later io.sends c io

theorem beginSend_later (c : Connection) (io : Io σ) : Later io (beginSend c io).2 := by
  have reset := resetConnection_later c io
  rw [beginSend]
  cases done : resetConnection c io with
  | mk status rest =>
    obtain ⟨c', io'⟩ := rest
    rw [done] at reset
    cases status with
    | err => exact reset.trans (closeConnection_later io')
    | ok =>
      have event := addEvent_later io' .epollout
      dsimp only
      cases added : addEvent io' .epollout with
      | mk status io'' =>
        rw [added] at event
        cases status with
        | ok => exact (reset.trans event).trans (sendData_later _ io'')
        | err => exact (reset.trans event).trans (closeConnection_later io'')

theorem resizeBuffer_suffix (reallocs : List (Option (List UInt8))) (buf : Buffer) (size : Nat) :
    (resizeBuffer reallocs buf size).2.2 <:+ reallocs := by
  rw [resizeBuffer]
  split
  · exact List.suffix_refl _
  · split <;> exact List.tail_suffix _

theorem push_suffix (out : Buffer × List (Option (List UInt8))) (bytes : List UInt8) :
    (push out bytes).2 <:+ out.2 := by
  rw [push, pushBuffer]
  split
  · have resized := resizeBuffer_suffix out.2 out.1 (out.1.size + bytes.length)
    cases done : resizeBuffer out.2 out.1 (out.1.size + bytes.length) with
    | mk status rest =>
      rw [done] at resized
      cases status <;> exact resized
  · exact List.suffix_refl _

theorem fillResponse_suffix (version : HttpVersion) (keepAlive : Bool) (status : HttpStatus)
    (body : List UInt8) (out : Buffer × List (Option (List UInt8))) :
    (fillResponse version keepAlive status body out).2 <:+ out.2 := by
  have first := push_suffix (clearBuffer out.1, out.2) (statusLine version status)
  unfold fillResponse
  dsimp only
  cases keepAlive with
  | true =>
    have headers := ((push_suffix _ keepAliveLine).trans (push_suffix _ connectionLine)).trans first
    split
    · exact ((push_suffix _ _).trans (push_suffix _ _)).trans headers
    · exact (push_suffix _ _).trans headers
  | false =>
    split
    · exact ((push_suffix _ _).trans (push_suffix _ _)).trans first
    · exact (push_suffix _ _).trans first

theorem sendResponse_later (c : Connection) (io : Io σ) (status : HttpStatus) (body : List UInt8) :
    Later io (sendResponse c io status body).2 := by
  have filled : Later io { io with reallocs := (fillResponse c.req.version c.keepAlive status body (c.buffer, io.reallocs)).2 } :=
    ⟨rfl, rfl, List.suffix_refl _, fillResponse_suffix ..⟩
  exact filled.trans (beginSend_later _ _)

theorem Responding.later {status : HttpStatus} {body : List UInt8}
    {result : Option Connection × Io σ} (run : Responding callback c io status body result) :
    Later io result.2 := by
  induction run with
  | start => exact sendResponse_later c io status body
  | resume _ out writable ended ih =>
    rw [ioCallback_out _ out writable] at ended
    cases ended
    exact ih.trans (sendLoop_later _ _ _)

/-! ## Receiving a request -/

/-- What receiving leaves alone. -/
structure Reading (c c' : Connection) (io io' : Io σ) : Prop where
  keepAlive : c'.keepAlive = c.keepAlive
  eventActive : c'.eventActive = c.eventActive
  interest : io'.interest = io.interest
  ctls : io'.ctls = io.ctls
  sent : io'.sent = io.sent
  app : io'.app = io.app
  sends : io'.sends = io.sends
  reallocs : io'.reallocs <:+ io.reallocs

theorem Reading.refl (c : Connection) (io : Io σ) : Reading c c io io :=
  ⟨rfl, rfl, rfl, rfl, rfl, rfl, rfl, List.suffix_refl _⟩

theorem Reading.trans {c'' : Connection} {io'' : Io σ} (first : Reading c c' io io')
    (second : Reading c' c'' io' io'') : Reading c c'' io io'' :=
  ⟨second.keepAlive.trans first.keepAlive, second.eventActive.trans first.eventActive,
    second.interest.trans first.interest, second.ctls.trans first.ctls,
    second.sent.trans first.sent,
    second.app.trans first.app, second.sends.trans first.sends,
    second.reallocs.trans first.reallocs⟩

theorem Reading.ready (reading : Reading c c' io io') (ready : Ready c io) : Ready c' io' := by
  refine ⟨?_, ?_⟩
  · rw [reading.eventActive, reading.interest]
    exact ready.entry
  · rw [reading.ctls]
    exact ready.granted

/-- `recv` would block: the state in which `parse_request` is called. -/
def blocked (cur : Connection × Io σ) : Option (Connection × Io σ) :=
  match reserve cur.2.reallocs cur.1.buffer with
  | (.err, _, _) => none
  | (.ok, buffer, reallocs) =>
    match cur.2.recvs with
    | .again :: recvs => some ({ cur.1 with buffer := buffer }, { cur.2 with recvs := recvs, reallocs := reallocs })
    | [] => some ({ cur.1 with buffer := buffer }, { cur.2 with reallocs := reallocs })
    | _ => none

theorem reserve_suffix (reallocs : List (Option (List UInt8))) (buf : Buffer) :
    (reserve reallocs buf).2.2 <:+ reallocs := by
  rw [reserve]
  split
  · exact resizeBuffer_suffix _ _ _
  · exact List.suffix_refl _

/-- A blocked round reserves room and uses up one answer of `recv`, if there is one. -/
theorem blocked_cases (stop : blocked (c, io) = some (c', io')) :
    ∃ buffer reallocs recvs, reserve io.reallocs c.buffer = (.ok, buffer, reallocs) ∧
      c' = { c with buffer := buffer } ∧
      io' = { io with recvs := recvs, reallocs := reallocs } ∧
      (io.recvs = .again :: recvs ∨ io.recvs = [] ∧ recvs = []) := by
  unfold blocked at stop
  dsimp only at stop
  cases reserved : reserve io.reallocs c.buffer with
  | mk status rest =>
    obtain ⟨buffer, reallocs⟩ := rest
    rw [reserved] at stop
    cases status with
    | err => cases stop
    | ok =>
      dsimp only at stop
      split at stop
      · next recvs found =>
        cases stop
        exact ⟨buffer, reallocs, recvs, rfl, rfl, rfl, .inl found⟩
      · next found =>
        cases stop
        exact ⟨buffer, reallocs, [], rfl, rfl, by rw [← found], .inr ⟨found, rfl⟩⟩
      · cases stop

theorem blocked_reading (stop : blocked (c, io) = some (c', io')) : Reading c c' io io' := by
  obtain ⟨buffer, reallocs, recvs, reserved, rfl, rfl, -⟩ := blocked_cases stop
  have suffix := reserve_suffix io.reallocs c.buffer
  rw [reserved] at suffix
  exact ⟨rfl, rfl, rfl, rfl, rfl, rfl, rfl, suffix⟩

theorem readRound_err {reallocs : List (Option (List UInt8))} {buf : Buffer}
    (failed : reserve io.reallocs c.buffer = (.err, buf, reallocs)) :
    readRound callback (c, io) = .ok (.done
      (closeConnection { io with reallocs := reallocs })) := by
  rw [readRound]
  dsimp only
  rw [failed]

theorem readRound_ok {reallocs : List (Option (List UInt8))} {buf : Buffer}
    (reserved : reserve io.reallocs c.buffer = (.ok, buf, reallocs)) :
    readRound callback (c, io) = receive callback
      { c with buffer := buf } { io with reallocs := reallocs } := by
  rw [readRound]
  dsimp only
  rw [reserved]

/-- In a blocked round the parser is called. -/
theorem readRound_blocked (stop : blocked (c, io) = some (c', io')) :
    readRound callback (c, io) = onBlocked callback c' io' := by
  obtain ⟨buffer, reallocs, recvs, reserved, rfl, rfl, found | ⟨found, rfl⟩⟩ := blocked_cases stop
  · rw [readRound_ok reserved, receive, found]
  · rw [readRound_ok reserved, receive, found]

/-- A round receives a chunk, closes the connection, or is blocked. -/
theorem readRound_cases (callback : Callback σ) (c : Connection) (io : Io σ) :
    (∃ chunk recvs buffer reallocs, reserve io.reallocs c.buffer = (.ok, buffer, reallocs) ∧
      io.recvs = .data chunk :: recvs ∧
      readRound callback (c, io) = .ok (.again ({ c with buffer := appendBytes buffer chunk.bytes },
        { io with recvs := recvs, reallocs := reallocs }))) ∨
    (∃ io', readRound callback (c, io) = .ok (.done (closeConnection io')) ∧ io'.timer = io.timer) ∨
    ∃ c' io', blocked (c, io) = some (c', io') := by
  cases reserved : reserve io.reallocs c.buffer with
  | mk status rest =>
    obtain ⟨buffer, reallocs⟩ := rest
    cases status with
    | err => exact .inr (.inl ⟨_, readRound_err reserved, rfl⟩)
    | ok =>
      have round : readRound callback (c, io) = _ := readRound_ok reserved
      rw [receive] at round
      dsimp only at round
      cases found : io.recvs with
      | nil =>
        exact .inr (.inr ⟨{ c with buffer := buffer }, { io with reallocs := reallocs },
          by simp only [blocked, reserved, found]⟩)
      | cons result recvs =>
        rw [found] at round
        cases result with
        | data chunk => exact .inl ⟨chunk, recvs, buffer, reallocs, rfl, rfl, round⟩
        | again =>
          exact .inr (.inr ⟨{ c with buffer := buffer }, { io with recvs := recvs, reallocs := reallocs },
            by simp only [blocked, reserved, found]⟩)
        | closed => exact .inr (.inl ⟨_, round, rfl⟩)
        | error => exact .inr (.inl ⟨_, round, rfl⟩)

/-- A round after which the loop goes on has received a chunk, or was blocked and needs more. -/
theorem readRound_again (round : readRound callback (c, io) = .ok (.again (c', io'))) :
    (∃ chunk recvs buffer reallocs, reserve io.reallocs c.buffer = (.ok, buffer, reallocs) ∧
      io.recvs = .data chunk :: recvs ∧ c' = { c with buffer := appendBytes buffer chunk.bytes } ∧
      io' = { io with recvs := recvs, reallocs := reallocs }) ∨
    ∃ c'' req, blocked (c, io) = some (c'', io') ∧ parseRequest c''.req c''.buffer = (.uf, req) ∧
      c' = { c'' with req := req } := by
  obtain ⟨chunk, recvs, buffer, reallocs, reserved, found, same⟩ | ⟨io'', same, -⟩
    | ⟨c'', io'', stop⟩ :=
    readRound_cases callback c io
  · rw [same] at round
    cases round
    exact .inl ⟨chunk, recvs, buffer, reallocs, reserved, found, rfl, rfl⟩
  · rw [same] at round
    cases round
  · rw [readRound_blocked stop, onBlocked] at round
    cases parsed : parseRequest c''.req c''.buffer with
    | mk code req =>
      rw [parsed] at round
      cases code with
      | uf =>
        cases round
        exact .inr ⟨c'', req, stop, parsed, rfl⟩
      | _ => cases round

theorem readRound_reading (round : readRound callback (c, io) = .ok (.again (c', io'))) :
    Reading c c' io io' := by
  obtain ⟨chunk, recvs, buffer, reallocs, reserved, -, rfl, rfl⟩ | ⟨c'', req, stop, -, rfl⟩ :=
    readRound_again round
  · have suffix := reserve_suffix io.reallocs c.buffer
    rw [reserved] at suffix
    exact ⟨rfl, rfl, rfl, rfl, rfl, rfl, rfl, suffix⟩
  · have reading := blocked_reading stop
    exact ⟨reading.keepAlive, reading.eventActive, reading.interest, reading.ctls, reading.sent,
      reading.app,
      reading.sends, reading.reallocs⟩

/-- Rounds of the loop of `read_data`. -/
inductive Rounds (callback : Callback σ) (start : Connection × Io σ) : Connection × Io σ → Prop where
  | refl : Rounds callback start start
  | step {cur next : Connection × Io σ} (earlier : Rounds callback start cur)
      (round : readRound callback cur = .ok (.again next)) : Rounds callback start next

theorem Rounds.head {start next cur : Connection × Io σ}
    (round : readRound callback start = .ok (.again next)) (rounds : Rounds callback next cur) :
    Rounds callback start cur := by
  induction rounds with
  | refl => exact .step .refl round
  | step _ later ih => exact .step ih later

theorem Rounds.reading (rounds : Rounds callback (c, io) (c', io')) : Reading c c' io io' := by
  generalize finish : (c', io') = cur at rounds
  induction rounds generalizing c' io' with
  | refl =>
    cases finish
    exact .refl c io
  | @step cur next _ round ih =>
    cases finish
    obtain ⟨c₁, io₁⟩ := cur
    exact (ih rfl).trans (readRound_reading round)

/-! ## Requests and replies -/

/-- A request that was served: as it was parsed, with the buffer it is in and the state of the
callbacks; the answer, the bytes that went out for it, and whether the connection was kept. -/
structure Reply (σ : Type) where
  req : Request
  buffer : Buffer
  app : σ
  status : HttpStatus
  body : List UInt8
  text : List UInt8
  kept : Bool

/-- One request is received, answered, and the response brought to its end. -/
inductive Exchange (callback : Callback σ) (c : Connection) (io : Io σ) : Reply σ →
    Option Connection × Io σ → Prop where
  | intro {c₁ c₂ : Connection} {io₁ io₂ : Io σ} {req : Request} {status : HttpStatus} {body text : List UInt8} {app : σ}
      {result : Option Connection × Io σ} (rounds : Rounds callback (c, io) (c₁, io₁))
      (stop : blocked (c₁, io₁) = some (c₂, io₂)) (parsed : parseRequest c₂.req c₂.buffer = (.ok, req))
      (answered : callback io₂.app req c₂.buffer = (status, body, app))
      (run : Responding callback { c₂ with req := req, keepAlive := c₂.keepAlive || req.version == .http11 }
        { io₂ with app := app } status body result)
      (finished : Over result) (sent : result.2.sent = io.sent ++ text) :
      Exchange callback c io ⟨req, c₂.buffer, io₂.app, status, body, text, result.1.isSome⟩ result

/-- An exchange on a connection that is ready ends with the whole response, which is for a
keep-alive connection if an earlier request made it one or this one does. -/
theorem Exchange.complete {reply : Reply σ} {result : Option Connection × Io σ}
    (exchange : Exchange callback c io reply result) (ready : Ready c io)
    (granted : Granted io.reallocs) (polite : Polite io.sends) :
    Complete (responseText reply.req.version
      (c.keepAlive || reply.req.version == .http11) reply.status reply.body) io.sent
      (c.keepAlive || reply.req.version == .http11) result ∧
    result.2.sent = io.sent ++ reply.text ∧ reply.kept = result.1.isSome ∧
      Granted result.2.reallocs ∧
      Polite result.2.sends := by
  cases exchange with
  | @intro c₁ c₂ io₁ io₂ req status body text app _ rounds stop parsed answered run finished sent =>
    have reading := rounds.reading.trans (blocked_reading stop)
    have granted' := granted.suffix reading.reallocs
    have polite' : Polite io₂.sends := by
      rw [reading.sends]
      exact polite
    have ready' : Ready { c₂ with req := req, keepAlive := c₂.keepAlive || req.version == .http11 }
        { io₂ with app := app } := ⟨(reading.ready ready).entry, (reading.ready ready).granted⟩
    have filled := fillResponse_granted (c₂.buffer, io₂.reallocs) granted' req.version
      (c₂.keepAlive || req.version == .http11) status body
    have starts := sendResponse_starts ready' (responseText_ne_nil _ _ _ _) filled.content
    have complete := (run.exact starts polite').complete finished
    dsimp only at complete
    rw [reading.keepAlive, reading.sent] at complete
    have rest := run.later
    exact ⟨complete, sent, rfl, granted'.suffix rest.reallocs, polite'.suffix rest.sends⟩

/-- In an exchange the callback is called once, and leaves its state to the next one. -/
theorem Exchange.app {reply : Reply σ} {result : Option Connection × Io σ}
    (exchange : Exchange callback c io reply result) :
    callback io.app reply.req reply.buffer = (reply.status, reply.body, result.2.app) := by
  cases exchange with
  | intro rounds stop parsed answered run =>
    have reading := rounds.reading.trans (blocked_reading stop)
    rw [← reading.app, answered, run.later.app]

/-- The requests that one connection serves, one after the other. -/
inductive Session (callback : Callback σ) (c : Connection) (io : Io σ) :
    List (Reply σ) → Option Connection × Io σ → Prop where
  | start : Session callback c io [] (some c, io)
  | next {c' : Connection} {io' : Io σ} {replies : List (Reply σ)} {reply : Reply σ}
      {result : Option Connection × Io σ} (earlier : Session callback c io replies (some c', io'))
      (exchange : Exchange callback c' io' reply result) : Session callback c io (replies ++ [reply]) result

/-! ## Determinism -/

theorem Rounds.run {start cur : Connection × Io σ} (rounds : Rounds callback start cur) :
    Relation.ReflTransGen (fun cur next => readRound callback cur =
      .ok (.again next)) start cur := by
  induction rounds with
  | refl => exact .refl
  | step _ round ih => exact ih.tail round

/-- `EPOLLOUT` on a connection in the state `OUT`. -/
def Resumes (before after : Option Connection × Io σ) : Prop :=
  ∃ c io, before = (some c, io) ∧ c.state = .stateOut ∧ after = sendLoop io.sends c io

theorem resumes_unique : Relator.RightUnique (Resumes (σ := σ)) := by
  intro before first second ⟨c, io, start, _, ended⟩ ⟨c', io', start', _, ended'⟩
  cases start.symm.trans start'
  rw [ended, ended']

theorem Over.stopped {result : Option Connection × Io σ} (finished : Over result)
    (next : Option Connection × Io σ) : ¬ Resumes result next := by
  intro ⟨c, io, start, out, _⟩
  subst start
  exact finished c rfl out

theorem Responding.run {status : HttpStatus} {body : List UInt8} {result : Option Connection × Io σ}
    (run : Responding callback c io status body result) :
    Relation.ReflTransGen Resumes (sendResponse c io status body) result := by
  induction run with
  | start => exact .refl
  | @resume c' io' result events fuel _ out writable ended ih =>
    rw [ioCallback_out _ out writable] at ended
    cases ended
    exact ih.tail ⟨c', io', rfl, out, rfl⟩

/-- What is received decides which request is answered, and how. -/
theorem Exchange.unique {reply reply' : Reply σ} {result result' : Option Connection × Io σ}
    (first : Exchange callback c io reply result) (second : Exchange callback c io reply' result') :
    reply = reply' ∧ result = result' := by
  cases first with
  | @intro c₁ c₂ io₁ io₂ req status body text app _ rounds stop parsed answered run finished sent =>
  cases second with
  | @intro c₃ c₄ io₃ io₄ req' status' body' text' app' _ rounds' stop' parsed' answered' run' finished' sent' =>
    -- the rounds end at the first complete request
    have last : ∀ next, readRound callback (c₁, io₁) ≠ .ok (.again next) := by
      intro next again
      rw [readRound_blocked stop, onBlocked, parsed] at again
      cases again
    have last' : ∀ next, readRound callback (c₃, io₃) ≠ .ok (.again next) := by
      intro next again
      rw [readRound_blocked stop', onBlocked, parsed'] at again
      cases again
    have unique : Relator.RightUnique fun cur next : Connection × Io σ =>
      readRound callback cur = .ok (.again next) := by
      intro cur next next' round round'
      cases round.symm.trans round'
      rfl
    cases stop_unique unique rounds.run rounds'.run last last'
    cases stop.symm.trans stop'
    cases parsed.symm.trans parsed'
    cases answered.symm.trans answered'
    cases stop_unique resumes_unique run.run run'.run finished.stopped finished'.stopped
    cases List.append_cancel_left (sent.symm.trans sent')
    exact ⟨rfl, rfl⟩

/-- One more request is served. -/
def Serves (callback : Callback σ) (before after : List (Reply σ) × Option Connection × Io σ) :
    Prop :=
  ∃ c io reply, before.2 = (some c, io) ∧ Exchange callback c io reply after.2 ∧
    after.1 = before.1 ++ [reply]

theorem serves_unique : Relator.RightUnique (Serves callback) := by
  intro ⟨replies, start⟩ ⟨first, result⟩ ⟨second, result'⟩ ⟨c, io, reply, same, exchange, more⟩
    ⟨c', io', reply', same', exchange', more'⟩
  cases same.symm.trans same'
  obtain ⟨rfl, rfl⟩ := exchange.unique exchange'
  exact Prod.ext (more.trans more'.symm) rfl

theorem Session.run {replies : List (Reply σ)} {result : Option Connection × Io σ}
    (session : Session callback c io replies result) :
    Relation.ReflTransGen (Serves callback) ([], some c, io) (replies, result) := by
  induction session with
  | start => exact .refl
  | @next c' io' replies reply _ _ exchange ih => exact ih.tail ⟨c', io', reply, rfl, exchange, rfl⟩

theorem replies_front {before after : List (Reply σ) × Option Connection × Io σ}
    (run : Relation.ReflTransGen (Serves callback) before after) : before.1 <+: after.1 := by
  induction run with
  | refl => exact List.prefix_refl _
  | tail _ last ih =>
    obtain ⟨-, -, reply, -, -, more⟩ := last
    rw [more]
    exact ih.trans (List.prefix_append _ _)

/-- Every session on a connection is the beginning of one that cannot go on. -/
theorem Session.prefix_of_stopped {replies replies' : List (Reply σ)} {c' : Connection} {io' : Io σ}
    {result : Option Connection × Io σ} (session : Session callback c io replies (some c', io'))
    (stopped : ∀ reply result, ¬ Exchange callback c' io' reply result)
    (other : Session callback c io replies' result) : replies' <+: replies := by
  apply replies_front (runs_to_stop serves_unique other.run session.run _)
  intro after ⟨c'', io'', reply, same, exchange, _⟩
  cases same
  exact stopped reply after.2 exchange

/-! ## Connections that wait -/

/-- A connection that waits for a request, with nothing that fails ahead of it. -/
structure Waits (c : Connection) (io : Io σ) : Prop where
  idle : Idle c io
  granted : Granted io.reallocs
  polite : Polite io.sends

theorem Complete.flag {text before : List UInt8} {keepAlive : Bool}
    {result : Option Connection × Io σ} (complete : Complete text before keepAlive result) :
    result.1.isSome = keepAlive := by
  cases keepAlive with
  | true =>
    obtain ⟨c, same, -⟩ := complete.kept rfl
    rw [same]
    rfl
  | false =>
    rw [complete.closed rfl]
    rfl

/-- A connection that is kept waits for the next request. -/
theorem Exchange.waits {reply : Reply σ} (exchange : Exchange callback c io reply (some c', io'))
    (waits : Waits c io) : Waits c' io' ∧ c'.keepAlive = true := by
  obtain ⟨complete, -, -, granted, polite⟩ :=
    exchange.complete waits.idle.ready waits.granted waits.polite
  obtain ⟨c'', same, idle, flag⟩ := complete.kept complete.flag.symm
  cases same
  exact ⟨⟨idle, granted, polite⟩, flag⟩

end Cask.Conn
