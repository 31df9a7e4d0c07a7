import Cask.Connection.Model
import Cask.Http.Text

/-! # Responses

A response is built by several pushes into the buffer that held the request, and drained by
`send_data`, which may be left in the middle and resumed by a later callback.  While nothing
fails, the bytes that the socket accepted are at every moment the front of the response, and
the connection leaves the state `OUT` with the last byte.
-/

namespace Cask.Conn

open Storage Http Event

/-! ## The text of a response -/

/-- The response as a whole. -/
def responseText (version : HttpVersion) (keepAlive : Bool) (status : HttpStatus)
    (body : List UInt8) : List UInt8 :=
  statusLine version status ++ (if keepAlive then connectionLine ++ keepAliveLine else []) ++
    contentLengthLine body.length ++ body

theorem decimal_of_lt {n : Nat} (small : n < 10) : decimal n = [UInt8.ofNat (48 + n)] := by
  simp only [decimal, Nat.toDigits_of_lt_base small, List.map_cons, List.map_nil]
  rw [Nat.toNat_digitChar_of_lt_ten small]

theorem decimal_step (n d : Nat) (positive : 0 < n) (digit : d < 10) :
    decimal (10 * n + d) = decimal n ++ decimal d := by
  rw [decimal, ← Nat.toDigits_append_toDigits (by decide) positive digit, List.map_append]
  rfl

/-- What `%lu` prints is read back by the parser's own reading of digits. -/
theorem digitsValue_decimal (n : Nat) : digitsValue (decimal n) = n := by
  induction n using Nat.strongRecOn with
  | _ n ih =>
    by_cases small : n < 10
    · rw [decimal_of_lt small]
      simp only [digitsValue, List.foldl_cons, List.foldl_nil, UInt8.toNat_ofNat']
      omega
    · have split : n = 10 * (n / 10) + n % 10 := by omega
      have digit : n % 10 < 10 := Nat.mod_lt _ (by decide)
      have high := ih (n / 10) (by omega)
      conv => lhs; rw [split]
      rw [decimal_step _ _ (by omega) digit, decimal_of_lt digit]
      simp only [digitsValue, List.foldl_append, List.foldl_cons, List.foldl_nil,
        UInt8.toNat_ofNat'] at high ⊢
      rw [high]
      omega

theorem decimal_digits (n : Nat) : Digits (decimal n) := by
  induction n using Nat.strongRecOn with
  | _ n ih =>
    by_cases small : n < 10
    · have digit : isDigit (UInt8.ofNat (48 + n)) = true := by
        have value : (UInt8.ofNat (48 + n)).toNat = 48 + n := by simp; omega
        simp only [isDigit, Bool.and_eq_true, decide_eq_true_eq, UInt8.le_iff_toNat_le, value]
        exact ⟨by simp, by simp; omega⟩
      rw [decimal_of_lt small]
      exact ⟨by simp, by simpa using digit⟩
    · have split : n = 10 * (n / 10) + n % 10 := by omega
      have digit : n % 10 < 10 := Nat.mod_lt _ (by decide)
      obtain ⟨nonempty, high⟩ := ih (n / 10) (by omega)
      have low := (ih (n % 10) (by omega)).2
      rw [split, decimal_step _ _ (by omega) digit]
      refine ⟨by simp [nonempty], fun c member => ?_⟩
      obtain inHigh | inLow := List.mem_append.mp member
      · exact high c inHigh
      · exact low c inLow

theorem decimal_length_le {n k : Nat} (some : 0 < k) : (decimal n).length ≤ k ↔ n < 10 ^ k := by
  rw [decimal, List.length_map]
  exact Nat.length_toDigits_le_iff (by decide) some

/-! ## Filling the buffer -/

/-- No call of `realloc` to come fails. -/
def Granted (reallocs : List (Option (List UInt8))) : Prop := ∀ outcome ∈ reallocs, outcome ≠ none

theorem Granted.head {reallocs : List (Option (List UInt8))} (granted : Granted reallocs) :
    ∃ fresh, reallocs.headD (some []) = some fresh := by
  cases reallocs with
  | nil => exact ⟨[], rfl⟩
  | cons outcome reallocs => exact Option.ne_none_iff_exists'.mp (granted outcome (List.mem_cons_self ..))

theorem Granted.tail {reallocs : List (Option (List UInt8))} (granted : Granted reallocs) :
    Granted reallocs.tail :=
  fun outcome member => granted outcome (List.mem_of_mem_tail member)

/-- The buffer holds `text`, and the outcomes that are left are good. -/
structure Filled (out : Buffer × List (Option (List UInt8))) (text : List UInt8) : Prop where
  content : content out.1 = text
  inside : Inside out.1
  granted : Granted out.2

theorem Filled.push {out : Buffer × List (Option (List UInt8))} {text : List UInt8}
    (filled : Filled out text) (bytes : List UInt8) : Filled (push out bytes) (text ++ bytes) := by
  obtain ⟨buf, reallocs⟩ := out
  obtain ⟨held, inside, granted⟩ := filled
  by_cases fits : buf.size + bytes.length ≤ buf.cap
  · rw [Conn.push, pushBuffer_fits fits]
    exact ⟨by rw [content_appendBytes, held], inside_appendBytes bytes inside, granted⟩
  · obtain ⟨fresh, outcome⟩ := granted.head
    obtain ⟨buf', pushed, appended, -, inside'⟩ :=
      pushBuffer_grows inside (Nat.lt_of_not_le fits) outcome
    rw [Conn.push, pushed]
    exact ⟨by rw [appended, held], inside', granted.tail⟩

/-- A body without bytes is not pushed. -/
theorem Filled.push_body {out : Buffer × List (Option (List UInt8))} {text : List UInt8}
    (filled : Filled out text) (body : List UInt8) :
    Filled (if body.length ≠ 0 then Conn.push out body else out) (text ++ body) := by
  split
  · exact filled.push body
  · next empty =>
    obtain rfl : body = [] := by simpa using empty
    simpa using filled

theorem fillResponse_granted (out : Buffer × List (Option (List UInt8))) (granted : Granted out.2)
    (version : HttpVersion) (keepAlive : Bool) (status : HttpStatus) (body : List UInt8) :
    Filled (fillResponse version keepAlive status body out)
      (responseText version keepAlive status body) := by
  have cleared : Filled (clearBuffer out.1, out.2) [] :=
    ⟨content_clearBuffer _, inside_clearBuffer _, granted⟩
  have started := cleared.push (statusLine version status)
  rw [List.nil_append] at started
  unfold fillResponse responseText
  dsimp only
  cases keepAlive with
  | true =>
    have headers :=
      ((started.push connectionLine).push keepAliveLine).push (contentLengthLine body.length)
    simpa using headers.push_body body
  | false =>
    have headers := started.push (contentLengthLine body.length)
    simpa using headers.push_body body

/-! ## Changing the direction -/

variable {σ : Type}

/-- The epoll set has an entry for the descriptor exactly when the event is active, and no call
of `epoll_ctl` to come fails. -/
structure Ready (c : Connection) (io : Io σ) : Prop where
  entry : c.eventActive = io.interest.isSome
  granted : ∀ outcome ∈ io.ctls, outcome = true

/-- What `begin_read` and `begin_send` leave alone. -/
structure Kept (io io' : Io σ) : Prop where
  recvs : io'.recvs = io.recvs
  sends : io'.sends = io.sends
  reallocs : io'.reallocs = io.reallocs
  sent : io'.sent = io.sent
  app : io'.app = io.app

theorem connectionTimer_inactive : connectionTimer.isActive = false := by decide

theorem headD_granted {ctls : List Bool} (granted : ∀ outcome ∈ ctls, outcome = true) :
    ctls.headD true = true := by
  cases ctls with
  | nil => rfl
  | cons outcome ctls => exact granted outcome (List.mem_cons_self ..)

theorem resetConnection_ready {c : Connection} {io : Io σ} (ready : Ready c io) :
    ∃ io', resetConnection c io = (.ok, { c with req := zeroed, writeBytes := 0, eventActive := false }, io') ∧
      io'.interest = none ∧ (∀ outcome ∈ io'.ctls, outcome = true) ∧ Kept io io' := by
  obtain ⟨entry, granted⟩ := ready
  simp only [resetConnection, connectionTimer_inactive, Bool.false_eq_true, if_false]
  cases active : c.eventActive with
  | true =>
    have registered : io.interest ≠ none := by
      rw [active] at entry
      exact Option.isSome_iff_ne_none.mp entry.symm
    rw [if_pos rfl, delEvent, if_pos ⟨registered, headD_granted granted⟩]
    exact ⟨_, rfl, rfl, fun outcome member => granted outcome (List.mem_of_mem_tail member), rfl,
      rfl, rfl, rfl, rfl⟩
  | false =>
    have absent : io.interest = none := by
      rw [active] at entry
      exact Option.isNone_iff_eq_none.mp (Option.isSome_eq_false_iff.mp entry.symm)
    rw [if_neg Bool.false_ne_true, ← active]
    exact ⟨{ io with timer := io.timer ++ [.reset] }, rfl, absent, granted, rfl, rfl, rfl, rfl, rfl⟩

theorem addEvent_ready {io : Io σ} (interest : Interest) (absent : io.interest = none)
    (granted : ∀ outcome ∈ io.ctls, outcome = true) :
    addEvent io interest = (.ok, { io with interest := some interest, ctls := io.ctls.tail }) := by
  rw [addEvent, if_pos ⟨absent, headD_granted granted⟩]

/-- A connection that waits for a request. -/
structure Idle (c : Connection) (io : Io σ) : Prop where
  state : c.state = .stateIn
  empty : c.buffer.size = 0
  unsent : c.writeBytes = 0
  request : c.req = zeroed
  active : c.eventActive = true
  interest : io.interest = some .epollin
  granted : ∀ outcome ∈ io.ctls, outcome = true

theorem Idle.ready {c : Connection} {io : Io σ} (idle : Idle c io) : Ready c io :=
  ⟨by rw [idle.active, idle.interest]; rfl, idle.granted⟩

theorem beginRead_ready {c : Connection} {io : Io σ} (ready : Ready c io) :
    ∃ c' io', beginRead c io = (some c', io') ∧ Idle c' io' ∧ Kept io io' ∧
      c'.keepAlive = c.keepAlive ∧
      c'.buffer = clearBuffer c.buffer := by
  obtain ⟨io', reset, absent, granted, kept⟩ := resetConnection_ready ready
  rw [beginRead, reset]
  dsimp only
  rw [addEvent_ready .epollin absent granted]
  refine ⟨_, _, rfl, ⟨rfl, rfl, rfl, rfl, rfl, rfl, ?_⟩,
    ⟨kept.recvs, kept.sends, kept.reallocs, kept.sent, kept.app⟩, rfl, rfl⟩
  exact fun outcome member => granted outcome (List.mem_of_mem_tail member)

theorem beginSend_ready {c : Connection} {io : Io σ} (ready : Ready c io) :
    ∃ c' io', beginSend c io = sendData c' io' ∧ c'.state = .stateOut ∧ c'.writeBytes = 0 ∧
      Ready c' io' ∧ Kept io io' ∧
      c'.keepAlive = c.keepAlive ∧ c'.buffer = c.buffer := by
  obtain ⟨io', reset, absent, granted, kept⟩ := resetConnection_ready ready
  rw [beginSend, reset]
  dsimp only
  rw [addEvent_ready .epollout absent granted]
  refine ⟨_, _, rfl, rfl, rfl, ⟨rfl, ?_⟩,
    ⟨kept.recvs, kept.sends, kept.reallocs, kept.sent, kept.app⟩, rfl, rfl⟩
  exact fun outcome member => granted outcome (List.mem_of_mem_tail member)

/-! ## Draining the buffer -/

/-- A response `text` of which a proper front has been accepted. -/
structure Pending (text before : List UInt8) (keepAlive : Bool) (c : Connection) (io : Io σ) : Prop where
  state : c.state = .stateOut
  ready : Ready c io
  content : content c.buffer = text
  cursor : c.writeBytes < text.length
  sent : io.sent = before ++ text.take c.writeBytes
  flag : c.keepAlive = keepAlive

/-- A response that has been accepted in full. -/
structure Complete (text before : List UInt8) (keepAlive : Bool) (result : Option Connection × Io σ) : Prop where
  sent : result.2.sent = before ++ text
  kept : keepAlive = true → ∃ c, result.1 = some c ∧ Idle c result.2 ∧ c.keepAlive = true
  closed : keepAlive = false → result.1 = none

/-- The socket does not fail. -/
def Polite (sends : List Send) : Prop := ∀ outcome ∈ sends, outcome ≠ .error

theorem slice_content {buf : Buffer} {off len : Nat} (inside : off + len ≤ buf.size) :
    buf.data.slice off len = ((content buf).drop off).take len := by
  apply List.ext_getElem
  · simp only [Image.slice_length, List.length_take, List.length_drop, content_length]
    omega
  · intro k _ _
    simp only [Image.slice, content, List.getElem_map, List.getElem_range, List.getElem_take,
      List.getElem_drop,
      Nat.zero_add]

/-- The front of the response grows by what one `send` accepts. -/
theorem Pending.accept {text before : List UInt8} {keepAlive : Bool} {c : Connection} {io : Io σ}
    (pending : Pending text before keepAlive c io) (numSent : Nat)
    (bound : c.writeBytes + numSent ≤ c.buffer.size) :
    io.sent ++ c.buffer.data.slice c.writeBytes numSent = before ++
      text.take (c.writeBytes + numSent) := by
  rw [slice_content bound, pending.content, pending.sent, List.append_assoc, List.take_add]

/-- The last bytes of the response are accepted. -/
theorem Pending.finish {text before : List UInt8} {keepAlive : Bool} {c : Connection} {io : Io σ}
    (pending : Pending text before keepAlive c io) {numSent : Nat}
    (last : c.writeBytes + numSent = c.buffer.size) (sends : List Send) :
    Complete text before keepAlive (finishSend { c with writeBytes := c.writeBytes + numSent }
      { io with sends := sends, sent := io.sent ++ c.buffer.data.slice c.writeBytes numSent }) := by
  have size : c.buffer.size = text.length := by rw [← pending.content, content_length]
  have sent := pending.accept numSent (Nat.le_of_eq last)
  rw [last, size, List.take_length] at sent
  rw [finishSend]
  split
  · next flag =>
    -- a connection that is kept starts to read again
    have ready : Ready { c with writeBytes := c.writeBytes + numSent }
        { io with sends := sends, sent := io.sent ++ c.buffer.data.slice c.writeBytes numSent } :=
      ⟨pending.ready.entry, pending.ready.granted⟩
    obtain ⟨c', io', began, idle, kept, flag', -⟩ := beginRead_ready ready
    rw [began]
    refine ⟨kept.sent.trans sent, fun _ => ⟨c', rfl, idle, flag'.trans flag⟩, fun off => ?_⟩
    rw [← pending.flag, flag] at off
    cases off
  · next flag =>
    refine ⟨?_, fun on => absurd (pending.flag.trans on) flag, fun _ => rfl⟩
    rw [← sent]
    unfold closeConnection delEvent
    split <;> rfl

/-- A chunk is a part of what is left, and not empty as long as something is left. -/
theorem chunk_bounds {left len : Nat} (chunk : (if left < writeChunk then left else writeChunk) = len) :
    len ≤ left ∧ (0 < left → 0 < len) := by
  rw [writeChunk] at chunk
  split at chunk <;> omega

/-- `send_data` gets further in the response, or to its end. -/
theorem sendLoop_pending {text before : List UInt8} {keepAlive : Bool} (sends : List Send)
    {c : Connection} {io : Io σ} (pending : Pending text before keepAlive c io)
    (polite : Polite sends) :
    Complete text before keepAlive (sendLoop sends c io) ∨
      ∃ c' io', sendLoop sends c io = (some c', io') ∧ Pending text before keepAlive c' io' ∧
      Polite io'.sends ∧
        io'.sends.length < sends.length := by
  have size : c.buffer.size = text.length := by rw [← pending.content, content_length]
  have cursor := pending.cursor
  induction sends generalizing c io with
  | nil => exact .inl (pending.finish (by omega) [])
  | cons outcome sends ih =>
    have polite' : Polite sends := fun next member => polite next (List.mem_cons_of_mem _ member)
    cases outcome with
    | again =>
      refine .inr ⟨c, { io with sends := sends }, rfl, ?_, polite', Nat.lt_succ_self _⟩
      exact ⟨pending.state, ⟨pending.ready.entry, pending.ready.granted⟩, pending.content,
        pending.cursor,
        pending.sent, pending.flag⟩
    | error => exact absurd rfl (polite .error (List.mem_cons_self ..))
    | accept room =>
      simp only [sendLoop]
      generalize len_eq : (if c.buffer.size - c.writeBytes < writeChunk then c.buffer.size - c.writeBytes else writeChunk) = len
      obtain ⟨most, least⟩ := chunk_bounds len_eq
      generalize sent_eq : min (room + 1) len = numSent
      split
      · next last => exact .inl (pending.finish last sends)
      · next more =>
        have short : c.writeBytes + numSent < text.length := by omega
        have sent := pending.accept numSent (by omega)
        have pending' : Pending text before keepAlive { c with writeBytes := c.writeBytes + numSent }
            { io with sends := sends, sent := io.sent ++ c.buffer.data.slice c.writeBytes numSent } :=
          ⟨pending.state, ⟨pending.ready.entry, pending.ready.granted⟩, pending.content, short,
            sent, pending.flag⟩
        obtain complete | ⟨c', io', left, pending'', polite'', shorter⟩ :=
          ih pending' polite' size short
        · exact .inl complete
        · exact .inr ⟨c', io', left, pending'', polite'', Nat.lt_succ_of_lt shorter⟩

/-! ## Runs of a response -/

variable {callback : Callback σ} {c : Connection} {io : Io σ} {status : HttpStatus} {body : List UInt8}

/-- The states after `send_response`, and after each further `EPOLLOUT` while the connection is
in the state `OUT`. -/
inductive Responding (callback : Callback σ) (c : Connection) (io : Io σ) (status : HttpStatus) (body : List UInt8) :
    Option Connection × Io σ → Prop where
  | start : Responding callback c io status body (sendResponse c io status body)
  | resume {c' : Connection} {io' : Io σ} {result : Option Connection × Io σ} {events : Events} {fuel : Nat}
      (earlier : Responding callback c io status body (some c', io')) (out : c'.state = .stateOut)
      (writable : events.epollout = true) (ended : ioCallback callback fuel events c' io' = .ok result) :
      Responding callback c io status body result

theorem ioCallback_out {c : Connection} {io : Io σ} {events : Events} (fuel : Nat)
    (out : c.state = .stateOut) (writable : events.epollout = true) :
    ioCallback callback fuel events c io = .ok (sendLoop io.sends c io) := by
  rw [ioCallback, out]
  dsimp only
  rw [if_pos writable, sendData]

/-- The response is on its way or complete. -/
def Exact (text before : List UInt8) (keepAlive : Bool) (result : Option Connection × Io σ) :
    Prop :=
  Complete text before keepAlive result ∨
    ∃ c io, result = (some c, io) ∧ Pending text before keepAlive c io ∧ Polite io.sends

/-- `send_response` comes to its first `send` with `text` in the buffer. -/
def Starts (text : List UInt8) (c : Connection) (io : Io σ) (status : HttpStatus)
    (body : List UInt8) : Prop :=
  ∃ c' io', sendResponse c io status body = sendLoop io.sends c' io' ∧
    Pending text io.sent c.keepAlive c' io' ∧
    c'.writeBytes = 0

/-- Everything up to the first `send`. -/
theorem sendResponse_ready {status : HttpStatus} {body : List UInt8} (ready : Ready c io) :
    ∃ c' io', sendResponse c io status body = sendLoop io.sends c' io' ∧ c'.state = .stateOut ∧
      c'.writeBytes = 0 ∧
      Ready c' io' ∧ io'.sent = io.sent ∧ c'.keepAlive = c.keepAlive ∧
      c'.buffer = (fillResponse c.req.version c.keepAlive status body
      (c.buffer, io.reallocs)).1 := by
  rw [sendResponse]
  generalize fillResponse c.req.version c.keepAlive status body (c.buffer, io.reallocs) = out
  have ready' : Ready { c with buffer := out.1 } { io with reallocs := out.2 } :=
    ⟨ready.entry, ready.granted⟩
  obtain ⟨c', io', began, state, cursor, ready'', kept, flag, buffer⟩ := beginSend_ready ready'
  refine ⟨c', io', ?_, state, cursor, ready'', kept.sent, flag, buffer⟩
  rw [began, sendData, kept.sends]

theorem sendResponse_starts {status : HttpStatus} {body text : List UInt8} (ready : Ready c io) (nonempty : text ≠ [])
    (filled : content (fillResponse c.req.version c.keepAlive status body (c.buffer, io.reallocs)).1 = text) :
    Starts text c io status body := by
  obtain ⟨c', io', began, state, cursor, ready', sent, flag, buffer⟩ := sendResponse_ready ready
  refine ⟨c', io', began, ⟨state, ready', by rw [buffer, filled], ?_, ?_, flag⟩, cursor⟩
  · rw [cursor]
    exact List.length_pos_iff.mpr nonempty
  · rw [cursor, List.take_zero, List.append_nil, sent]

theorem responseText_ne_nil (version : HttpVersion) (keepAlive : Bool) (status : HttpStatus)
    (body : List UInt8) : responseText version keepAlive status body ≠ [] := by
  simp [responseText, statusLine, crlf]

/-- A complete response has left the state `OUT`. -/
theorem Complete.not_out {text before : List UInt8} {keepAlive : Bool} {c : Connection} {io : Io σ}
    (complete : Complete text before keepAlive (some c, io)) : c.state ≠ .stateOut := by
  cases keepAlive with
  | true =>
    obtain ⟨c', same, idle, -⟩ := complete.kept rfl
    cases same
    rw [idle.state]
    decide
  | false => cases complete.closed rfl

/-- The response is over: the connection is closed or reads again. -/
def Over (result : Option Connection × Io σ) : Prop := ∀ c, result.1 = some c → c.state ≠ .stateOut

theorem Complete.over {text before : List UInt8} {keepAlive : Bool}
    {result : Option Connection × Io σ} (complete : Complete text before keepAlive result) :
    Over result := by
  obtain ⟨conn, io'⟩ := result
  intro c' some
  obtain rfl : conn = _ := some
  exact complete.not_out

theorem Exact.complete {text before : List UInt8} {keepAlive : Bool}
    {result : Option Connection × Io σ} (exact : Exact text before keepAlive result)
    (finished : Over result) : Complete text before keepAlive result := by
  obtain complete | ⟨c', io', rfl, pending, -⟩ := exact
  · exact complete
  · exact absurd pending.state (finished c' rfl)

theorem Responding.exact {text : List UInt8} {result : Option Connection × Io σ}
    (starts : Starts text c io status body) (polite : Polite io.sends)
    (run : Responding callback c io status body result) :
    Exact text io.sent c.keepAlive result := by
  induction run with
  | start =>
    obtain ⟨c', io', started, pending, -⟩ := starts
    rw [started]
    exact (sendLoop_pending _ pending polite).imp_right
      fun ⟨c'', io'', left, rest, polite', _⟩ => ⟨c'', io'', left, rest, polite'⟩
  | resume _ out writable ended ih =>
    rw [ioCallback_out _ out writable] at ended
    cases ended
    obtain complete | ⟨c', io', same, pending, polite'⟩ := ih
    · exact absurd out complete.not_out
    · cases same
      exact (sendLoop_pending _ pending polite').imp_right
        fun ⟨c'', io'', left, rest, polite'', _⟩ => ⟨c'', io'', left, rest, polite''⟩

/-- A pending response comes to its end, however often `send` blocks. -/
theorem Responding.finish {text before : List UInt8} {keepAlive : Bool} {c' : Connection}
    {io' : Io σ} (run : Responding callback c io status body (some c', io'))
    (pending : Pending text before keepAlive c' io') (polite : Polite io'.sends) :
    ∃ result, Responding callback c io status body result ∧
      Complete text before keepAlive result := by
  induction bound : io'.sends.length using Nat.strongRecOn generalizing c' io' with
  | _ length ih =>
    have ended : ioCallback callback 0 ⟨false, true⟩ c' io' = .ok (sendLoop io'.sends c' io') :=
      ioCallback_out 0 pending.state rfl
    have next : Responding callback c io status body (sendLoop io'.sends c' io') :=
      run.resume pending.state (by rfl) ended
    obtain complete | ⟨c'', io'', left, pending', polite', shorter⟩ :=
      sendLoop_pending _ pending polite
    · exact ⟨_, next, complete⟩
    · rw [left] at next
      exact ih io''.sends.length (by omega) next pending' polite' rfl

theorem Starts.completes {text : List UInt8} (starts : Starts text c io status body)
    (polite : Polite io.sends) :
    ∃ result, Responding callback c io status body result ∧
      Complete text io.sent c.keepAlive result := by
  obtain ⟨c', io', started, pending, -⟩ := starts
  have first : Responding callback c io status body (sendLoop io.sends c' io') := by
    rw [← started]
    exact .start
  obtain complete | ⟨c'', io'', left, pending', polite', -⟩ := sendLoop_pending _ pending polite
  · exact ⟨_, first, complete⟩
  · rw [left] at first
    exact first.finish pending' polite'

/-- The socket accepts the response byte by byte, in order and once, however the calls of `send`
cut it, and this comes to an end; with the last byte the connection is ready for the next request or closed. -/
theorem response_exact (ready : Ready c io) (granted : Granted io.reallocs)
    (polite : Polite io.sends) :
    (∀ result, Responding callback c io status body result →
      Exact (responseText c.req.version c.keepAlive status body) io.sent c.keepAlive result) ∧
    ∃ result, Responding callback c io status body result ∧
      Complete (responseText c.req.version c.keepAlive status body) io.sent c.keepAlive result := by
  have filled :=
    fillResponse_granted (c.buffer, io.reallocs) granted c.req.version c.keepAlive status body
  have starts := sendResponse_starts ready (responseText_ne_nil _ _ _ _) filled.content
  exact ⟨fun result run => run.exact starts polite, starts.completes polite⟩

/-- A connection on which a request was just read, for a client that speaks HTTP/1.0. -/
def served : Connection := ⟨.stateIn, true, false, emptyBuffer, 0, zeroed⟩

/-- A socket that takes ten bytes, blocks, takes one byte, and blocks again. -/
def slowSocket : Io Unit :=
  ⟨[], [.accept 9, .again, .accept 0, .again], [], [], some .epollin, [], [], ()⟩

/-- The answer to a request for an unknown path is sent in pieces, and the connection closed. -/
theorem response_exact_slow : ∃ result,
    Responding (fun app _ _ => (.status404, [], app)) served slowSocket .status404 [] result ∧
      Complete (responseText .http10 false .status404 []) [] false result := by
  have ready : Ready served slowSocket := ⟨rfl, fun _ member => nomatch member⟩
  have granted : Granted slowSocket.reallocs := fun _ member => nomatch member
  have polite : Polite slowSocket.sends := by
    unfold Polite
    decide
  exact (response_exact ready granted polite).2

end Cask.Conn
