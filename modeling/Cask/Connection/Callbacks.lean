import Cask.Connection.Session

/-! # What a callback leaves behind

Whatever the kernel and the allocator answer, a callback leaves its connection with the entry in
the epoll set that goes with the state, or closed.  The one exception is a response of which no
piece found memory, when the socket would block on it: there is nothing left to send then, and
the connection waits to send it.
-/

namespace Cask.Conn

open Storage Http Event Fuel

variable {σ : Type} {callback : Callback σ} {c : Connection} {io : Io σ}

/-- The epoll set has the entry of the state, and in the state `OUT` something is left to send. -/
inductive Listed (c : Connection) (entry : Option Interest) : Prop where
  | reads (state : c.state = .stateIn) (interest : entry = some .epollin)
  | sends (state : c.state = .stateOut) (interest : entry = some .epollout) (left : c.writeBytes < c.buffer.size)

/-- A connection that is listed, or was closed, after some resets of its timer. -/
structure Settled (before : List TimerCall) (result : Option Connection × Io σ) : Prop where
  listed : ∀ c, result.1 = some c → Listed c result.2.interest ∧
    ∃ resets, result.2.timer = before ++ List.replicate resets .reset
  closed : result.1 = none → result.2.interest = none ∧
    ∃ resets, result.2.timer = before ++ List.replicate resets .reset ++ [.cancel]

/-! ## Events and timers -/

theorem Settled.after_reset {before : List TimerCall} {result : Option Connection × Io σ}
    (settled : Settled (before ++ [.reset]) result) : Settled before result := by
  have join : ∀ resets, before ++ [.reset] ++ List.replicate resets .reset = before ++ List.replicate (resets + 1) .reset := by
    simp [List.replicate_succ]
  refine ⟨fun c same => ?_, fun none => ?_⟩
  · obtain ⟨listed, resets, log⟩ := settled.listed c same
    exact ⟨listed, resets + 1, by rw [log, join]⟩
  · obtain ⟨interest, resets, log⟩ := settled.closed none
    exact ⟨interest, resets + 1, by rw [log, join]⟩

theorem Settled.of_listed {before : List TimerCall} (log : io.timer = before)
    (listed : Listed c io.interest) : Settled before (some c, io) := by
  refine ⟨fun c' same => ?_, fun none => nomatch none⟩
  cases same
  exact ⟨listed, 0, by simp [log]⟩

theorem delEvent_timer (io : Io σ) : (delEvent io).2.timer = io.timer := by
  rw [delEvent]
  split <;> rfl

theorem closeConnection_settled {before : List TimerCall} (log : io.timer = before) :
    Settled before (closeConnection io) := by
  refine ⟨fun c same => (nomatch same), fun _ => ⟨rfl, 0, ?_⟩⟩
  simp [closeConnection, delEvent_timer, log]

/-- `reset_connection` goes through, also when the event stays in the epoll set. -/
theorem resetConnection_ok (c : Connection) (io : Io σ) :
    ∃ c' io', resetConnection c io = (.ok, c', io') ∧ c'.buffer = c.buffer ∧ c'.writeBytes = 0 ∧
      io'.timer = io.timer ++ [.reset] ∧ io'.sends = io.sends := by
  rw [resetConnection, connectionTimer_inactive, if_neg Bool.false_ne_true]
  dsimp only
  split
  · have log := delEvent_timer { io with timer := io.timer ++ [.reset] }
    have sends : (delEvent { io with timer := io.timer ++ [.reset] }).2.sends = io.sends := by
      rw [delEvent]
      split <;> rfl
    cases deleted : delEvent { io with timer := io.timer ++ [.reset] } with
    | mk status io' =>
      rw [deleted] at log sends
      cases status <;> exact ⟨_, io', rfl, rfl, rfl, log, sends⟩
  · exact ⟨_, _, rfl, rfl, rfl, rfl, rfl⟩

/-- An entry is added, or nothing but an answer of `epoll_ctl` is used up. -/
theorem addEvent_cases (io : Io σ) (interest : Interest) :
    addEvent io interest = (.ok, { io with interest := some interest, ctls := io.ctls.tail }) ∨
      addEvent io interest = (.err, { io with ctls := io.ctls.tail }) := by
  rw [addEvent]
  split
  · exact .inl rfl
  · exact .inr rfl

theorem beginRead_settled {before : List TimerCall} (c : Connection) (log : io.timer = before) :
    Settled before (beginRead c io) := by
  obtain ⟨c', io', reset, -, -, log', -⟩ := resetConnection_ok c io
  rw [log] at log'
  rw [beginRead, reset]
  dsimp only
  apply Settled.after_reset
  obtain added | failed := addEvent_cases io' .epollin
  · rw [added]
    exact .of_listed log' (.reads rfl rfl)
  · rw [failed]
    exact closeConnection_settled log'

/-! ## Sending -/

theorem finishSend_settled {before : List TimerCall} (c : Connection) (log : io.timer = before) :
    Settled before (finishSend c io) := by
  rw [finishSend]
  split
  · exact beginRead_settled c log
  · exact closeConnection_settled log

/-- There is something left to send, or the socket does not block on nothing. -/
def Sendable (buffer : Buffer) (writeBytes : Nat) (sends : List Send) : Prop :=
  writeBytes < buffer.size ∨ writeBytes = buffer.size ∧ sends.head? ≠ some .again

theorem sendLoop_settled {before : List TimerCall} (sends : List Send) {c : Connection} {io : Io σ}
    (state : c.state = .stateOut) (interest : io.interest = some .epollout)
    (log : io.timer = before) (sendable : Sendable c.buffer c.writeBytes sends) :
    Settled before (sendLoop sends c io) := by
  induction sends generalizing c io with
  | nil => exact finishSend_settled _ log
  | cons outcome sends ih =>
    cases outcome with
    | again =>
      obtain left | ⟨-, blocks⟩ := sendable
      · exact .of_listed log (.sends state interest left)
      · exact absurd rfl blocks
    | error => exact closeConnection_settled log
    | accept room =>
      rw [sendLoop]
      dsimp only
      generalize len_eq : (if c.buffer.size - c.writeBytes < writeChunk then c.buffer.size - c.writeBytes else writeChunk) = len
      obtain ⟨most, least⟩ := chunk_bounds len_eq
      generalize sent_eq : min (room + 1) len = numSent
      split
      · exact finishSend_settled _ log
      · next more =>
        -- something is left to send, so the connection stays listed
        have left : c.writeBytes + numSent < c.buffer.size := by
          obtain front | ⟨front, -⟩ := sendable <;> omega
        exact ih state interest log (.inl left)

theorem beginSend_settled {before : List TimerCall} (log : io.timer = before)
    (sendable : Sendable c.buffer 0 io.sends) : Settled before (beginSend c io) := by
  obtain ⟨c', io', reset, buffer, cursor, log', sends⟩ := resetConnection_ok c io
  rw [log] at log'
  rw [beginSend, reset]
  dsimp only
  apply Settled.after_reset
  obtain added | failed := addEvent_cases io' .epollout
  · rw [added]
    have sendable' : Sendable c'.buffer c'.writeBytes io'.sends := by
      rw [buffer, cursor, sends]
      exact sendable
    exact sendLoop_settled io'.sends rfl rfl log' sendable'
  · rw [failed]
    exact closeConnection_settled log'

/-! ## Reading -/

theorem blocked_timer {c' : Connection} {io' : Io σ} (stop : blocked (c, io) = some (c', io')) :
    io'.timer = io.timer := by
  obtain ⟨buffer, reallocs, recvs, -, -, rfl, -⟩ := blocked_cases stop
  rfl

/-- A round that ends the loop has closed the connection or found a complete request. -/
theorem readRound_done {result : Option Connection × Io σ}
    (round : readRound callback (c, io) = .ok (.done result)) :
    (∃ io', io'.timer = io.timer ∧ result = closeConnection io') ∨
      ∃ c' io' req, blocked (c, io) = some (c', io') ∧ parseRequest c'.req c'.buffer = (.ok, req) ∧
        result = answer callback c' io' req := by
  obtain ⟨chunk, recvs, buffer, reallocs, reserved, found, same⟩ | ⟨io', same, log⟩
    | ⟨c', io', stop⟩ :=
    readRound_cases callback c io
  · rw [same] at round
    cases round
  · rw [same] at round
    cases round
    exact .inl ⟨io', log, rfl⟩
  · have log : io'.timer = io.timer := blocked_timer stop
    rw [readRound_blocked stop, onBlocked] at round
    cases parsed : parseRequest c'.req c'.buffer with
    | mk code req =>
      rw [parsed] at round
      cases code with
      | ok =>
        cases round
        exact .inr ⟨c', io', req, stop, parsed, rfl⟩
      | err =>
        cases round
        exact .inl ⟨io', log, rfl⟩
      | uf => cases round
      | trap => cases round

/-- Receiving does not touch the timer. -/
theorem readRound_timer {c' : Connection} {io' : Io σ}
    (round : readRound callback (c, io) = .ok (.again (c', io'))) : io'.timer = io.timer := by
  obtain ⟨chunk, recvs, buffer, reallocs, -, -, -, rfl⟩ | ⟨c'', req, stop, -, -⟩ :=
    readRound_again round
  · rfl
  · exact blocked_timer stop

theorem Rounds.timer {start cur : Connection × Io σ} (rounds : Rounds callback start cur) :
    cur.2.timer = start.2.timer := by
  induction rounds with
  | refl => rfl
  | step _ round ih => exact (readRound_timer round).trans ih

/-- The loop of `read_data` ends with the last of its rounds. -/
theorem readData_rounds {fuel : Nat} {result : Option Connection × Io σ}
    (ended : readData callback fuel c io = .ok result) :
    ∃ cur, Rounds callback (c, io) cur ∧ readRound callback cur = .ok (.done result) := by
  rw [readData] at ended
  generalize (c, io) = start at ended ⊢
  induction fuel generalizing start with
  | zero => cases ended
  | succ fuel ih =>
    rw [loop] at ended
    split at ended
    · cases ended
    · next next round =>
      obtain ⟨cur, rounds, last⟩ := ih next ended
      exact ⟨cur, rounds.head round, last⟩
    · next round =>
      cases ended
      exact ⟨start, .refl, round⟩

/-- No response is sent from an empty buffer while the socket blocks: if no piece of a response
finds memory, the first `send` does not report `EAGAIN`. -/
def NoBlankSend (callback : Callback σ) (c : Connection) (io : Io σ) : Prop :=
  ∀ cur c' io' req status body app, Rounds callback (c, io) cur → blocked cur = some (c', io') →
    parseRequest c'.req c'.buffer = (.ok, req) →
    callback io'.app req c'.buffer = (status, body, app) →
    content (fillResponse req.version (c'.keepAlive || req.version == .http11) status body (c'.buffer, io'.reallocs)).1 = [] →
    io'.sends.head? ≠ some .again

theorem readData_settled {before : List TimerCall} {fuel : Nat} {result : Option Connection × Io σ}
    (log : io.timer = before) (clear : NoBlankSend callback c io)
    (ended : readData callback fuel c io = .ok result) : Settled before result := by
  obtain ⟨⟨c₁, io₁⟩, rounds, last⟩ := readData_rounds ended
  have log₁ : io₁.timer = before := rounds.timer.trans log
  obtain ⟨io', log', rfl⟩ | ⟨c', io', req, stop, parsed, rfl⟩ := readRound_done last
  · exact closeConnection_settled (log'.trans log₁)
  · have log' := blocked_timer stop
    rw [answer]
    cases answered : callback io'.app req c'.buffer with
    | mk status rest =>
      obtain ⟨body, app⟩ := rest
      dsimp only
      rw [sendResponse]
      have fill := clear (c₁, io₁) c' io' req status body app rounds stop parsed answered
      dsimp only
      generalize fillResponse req.version (c'.keepAlive || req.version == .http11) status body (c'.buffer, io'.reallocs) = out
        at fill ⊢
      have sendable : Sendable out.1 0 io'.sends := by
        by_cases empty : out.1.size = 0
        · exact .inr ⟨empty.symm, fill (content_eq_nil.mpr empty)⟩
        · exact .inl (Nat.pos_of_ne_zero empty)
      exact beginSend_settled (log'.trans log₁) sendable

/-- Every callback on a listed connection leaves it listed or closed. -/
theorem ioCallback_settled {before : List TimerCall} {fuel : Nat} {events : Events} {result : Option Connection × Io σ}
    (listed : Listed c io.interest) (log : io.timer = before) (clear : NoBlankSend callback c io)
    (ended : ioCallback callback fuel events c io = .ok result) : Settled before result := by
  cases listed with
  | reads state interest =>
    simp only [ioCallback, state] at ended
    split at ended
    · exact readData_settled log clear ended
    · cases ended
      exact closeConnection_settled log
  | sends state interest left =>
    simp only [ioCallback, state] at ended
    split at ended
    · cases ended
      exact sendLoop_settled _ state interest log (.inl left)
    · cases ended
      exact closeConnection_settled log

/-- A callback that has come to an end does so with every larger amount of fuel. -/
theorem ioCallback_returns {fuel : Nat} {events : Events} {result : Option Connection × Io σ}
    (ended : ioCallback callback fuel events c io = .ok result) :
    Returns (ioCallback callback · events c io) result := by
  refine ⟨fuel, fun fuel' more => ?_⟩
  rw [← ended]
  simp only [ioCallback] at ended ⊢
  split
  · next state =>
    rw [state] at ended
    dsimp only at ended
    split
    · next reported =>
      rw [if_pos reported] at ended
      rw [ended]
      exact loop_mono ended more
    · rfl
  · rfl
  · rfl
  · rfl

/-- A peer that has closed its end does not make `recv` block. -/
theorem blocked_hangup {recvs : List Recv} (closed : io.recvs = .closed :: recvs) : blocked (c, io) = none := by
  simp only [blocked, closed]
  split <;> rfl

/-- Nothing is sent to a peer that has closed its end. -/
theorem noBlankSend_hangup {recvs : List Recv} (closed : io.recvs = .closed :: recvs) :
    NoBlankSend callback c io := by
  have never := blocked_hangup (c := c) closed
  intro cur c' io' req status body app rounds stop
  obtain same | ⟨⟨c₁, io₁⟩, round, -⟩ := rounds.run.cases_head
  · cases same
    rw [never] at stop
    cases stop
  · obtain ⟨chunk, recvs', buffer, reallocs, -, found, -⟩ | ⟨c'', req, stop', -⟩ := readRound_again round
    · cases closed.symm.trans found
    · rw [never] at stop'
      cases stop'

variable (callback) in
/-- The callback closes the connection when the peer has closed its end. -/
theorem ioCallback_hangup {events : Events} {recvs : List Recv} (state : c.state = .stateIn)
    (reported : events.epollin = true) (closed : io.recvs = .closed :: recvs) :
    ∃ io', io'.timer = io.timer ∧ Returns (ioCallback callback · events c io) (closeConnection io') := by
  obtain ⟨io', round, log⟩ : ∃ io', readRound callback (c, io) = .ok (.done (closeConnection io')) ∧
      io'.timer = io.timer := by
    obtain ⟨chunk, recvs', buffer, reallocs, -, found, -⟩ | done | ⟨c', io', stop⟩ := readRound_cases callback c io
    · cases closed.symm.trans found
    · exact done
    · rw [blocked_hangup closed] at stop
      cases stop
  refine ⟨io', log, ?_⟩
  simp only [ioCallback, state, reported, if_true, readData]
  exact .loop_done round

/-! ## Buffers -/

theorem Valid.resize {buf : Buffer} (valid : Valid buf) (reallocs : List (Option (List UInt8))) {size : Nat}
    (positive : 0 < size) : Valid (resizeBuffer reallocs buf size).2.1 := by
  cases outcome : reallocs.headD (some []) with
  | none =>
    rw [resizeBuffer_none positive outcome]
    exact valid
  | some fresh =>
    rw [resizeBuffer_granted positive outcome]
    exact ⟨Nat.min_le_right .., Nat.le_refl _⟩

theorem push_valid {out : Buffer × List (Option (List UInt8))} (valid : Valid out.1) (bytes : List UInt8) :
    Valid (push out bytes).1 := by
  obtain ⟨status, buf, ran, does⟩ : Works out.2 out.1 (.push bytes) := works_push valid bytes
  rw [BufferOp.run, if_neg (valid.not_overruns bytes)] at ran
  cases ran
  exact does.valid

theorem fillResponse_valid {out : Buffer × List (Option (List UInt8))} (valid : Valid out.1) (version : HttpVersion)
    (keepAlive : Bool) (status : HttpStatus) (body : List UInt8) :
    Valid (fillResponse version keepAlive status body out).1 := by
  have line : Valid (push (clearBuffer out.1, out.2) (statusLine version status)).1 := push_valid valid.clear _
  unfold fillResponse
  dsimp only
  have headers : Valid (if keepAlive = true then
      push (push (push (clearBuffer out.1, out.2) (statusLine version status)) connectionLine) keepAliveLine
      else push (clearBuffer out.1, out.2) (statusLine version status)).1 := by
    split
    · exact push_valid (push_valid line _) _
    · exact line
  split
  · exact push_valid (push_valid headers _) _
  · exact push_valid headers _

/-- A callback closes the connection, or leaves it with a valid buffer. -/
def BufferValid (result : Option Connection × Io σ) : Prop := ∀ c, result.1 = some c → Valid c.buffer

theorem closeConnection_valid (io : Io σ) : BufferValid (closeConnection io) := fun _ same => nomatch same

theorem beginRead_valid (valid : Valid c.buffer) (io : Io σ) : BufferValid (beginRead c io) := by
  obtain ⟨c', io', reset, buffer, -⟩ := resetConnection_ok c io
  rw [beginRead, reset]
  dsimp only
  obtain added | failed := addEvent_cases io' .epollin
  · rw [added]
    intro c'' same
    cases same
    rw [buffer]
    exact valid.clear
  · rw [failed]
    exact closeConnection_valid _

theorem finishSend_valid (valid : Valid c.buffer) (io : Io σ) : BufferValid (finishSend c io) := by
  rw [finishSend]
  split
  · exact beginRead_valid valid io
  · exact closeConnection_valid io

theorem sendLoop_valid (sends : List Send) (valid : Valid c.buffer) (io : Io σ) :
    BufferValid (sendLoop sends c io) := by
  induction sends generalizing c io with
  | nil => exact finishSend_valid (c := { c with writeBytes := _ }) valid _
  | cons outcome sends ih =>
    cases outcome with
    | again =>
      intro c' same
      cases same
      exact valid
    | error => exact closeConnection_valid _
    | accept room =>
      rw [sendLoop]
      dsimp only
      generalize min (room + 1) _ = numSent
      split
      · exact finishSend_valid (c := { c with writeBytes := c.writeBytes + numSent }) valid _
      · exact ih (c := { c with writeBytes := c.writeBytes + numSent }) valid _

theorem beginSend_valid (valid : Valid c.buffer) (io : Io σ) : BufferValid (beginSend c io) := by
  obtain ⟨c', io', reset, buffer, -⟩ := resetConnection_ok c io
  rw [← buffer] at valid
  rw [beginSend, reset]
  dsimp only
  obtain added | failed := addEvent_cases io' .epollout
  · rw [added]
    exact sendLoop_valid _ (c := { c' with state := .stateOut, eventActive := true }) valid _
  · rw [failed]
    exact closeConnection_valid _

theorem answer_valid (valid : Valid c.buffer) (io : Io σ) (req : Request) :
    BufferValid (answer callback c io req) := by
  rw [answer]
  generalize callback io.app req c.buffer = answered
  obtain ⟨status, body, app⟩ := answered
  exact beginSend_valid (c := { c with buffer := _, req := req, keepAlive := _ }) (fillResponse_valid valid ..) _

/-- There is room for a chunk in the block. -/
theorem reserve_valid {reallocs reallocs' : List (Option (List UInt8))} {buf buf' : Buffer} (valid : Valid buf)
    (reserved : reserve reallocs buf = (.ok, buf', reallocs')) : Valid buf' ∧ buf'.size + readChunk ≤ buf'.cap := by
  rw [reserve] at reserved
  split at reserved
  · have positive : 0 < buf.size + readChunk := by simp [readChunk]
    have grown := valid.resize reallocs positive
    cases outcome : reallocs.headD (some []) with
    | none =>
      rw [resizeBuffer_none positive outcome] at reserved
      cases reserved
    | some fresh =>
      rw [resizeBuffer_granted positive outcome] at reserved grown
      cases reserved
      exact ⟨grown, by simp⟩
  · next fits =>
    cases reserved
    exact ⟨valid, Nat.le_of_not_lt fits⟩

theorem blocked_valid {c' : Connection} {io' : Io σ} (valid : Valid c.buffer)
    (stop : blocked (c, io) = some (c', io')) : Valid c'.buffer := by
  obtain ⟨buffer, reallocs, recvs, reserved, rfl, -⟩ := blocked_cases stop
  exact (reserve_valid valid reserved).1

theorem Rounds.valid {start cur : Connection × Io σ} (rounds : Rounds callback start cur) (valid : Valid start.1.buffer) :
    Valid cur.1.buffer := by
  induction rounds with
  | refl => exact valid
  | step _ round ih =>
    obtain ⟨chunk, recvs, buffer, reallocs, reserved, -, same, -⟩ | ⟨c'', req, stop, -, same⟩ := readRound_again round
    · rw [same]
      obtain ⟨valid', room⟩ := reserve_valid ih reserved
      exact valid'.append (Nat.le_trans (Nat.add_le_add_left chunk.fits _) room)
    · have left := blocked_valid ih stop
      rw [same]
      exact left

/-- A connection's buffer is valid after every callback, so that none of them copies past the block. -/
theorem ioCallback_valid {fuel : Nat} {events : Events} {result : Option Connection × Io σ} (valid : Valid c.buffer)
    (ended : ioCallback callback fuel events c io = .ok result) : BufferValid result := by
  rw [ioCallback] at ended
  split at ended
  · split at ended
    · obtain ⟨⟨c₁, io₁⟩, rounds, last⟩ := readData_rounds ended
      obtain ⟨io', -, rfl⟩ | ⟨c', io', req, stop, -, rfl⟩ := readRound_done last
      · exact closeConnection_valid io'
      · exact answer_valid (blocked_valid (rounds.valid valid) stop) io' req
    · cases ended
      exact closeConnection_valid io
  · split at ended
    · cases ended
      exact sendLoop_valid _ valid io
    · cases ended
      exact closeConnection_valid io
  · cases ended
    exact closeConnection_valid io
  · cases ended
    exact closeConnection_valid io

end Cask.Conn
