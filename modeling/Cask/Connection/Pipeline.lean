import Cask.Connection.Session
import Cask.Connection.Silence
import Cask.Http.Resume
import Mathlib.Data.List.Forall2

/-! # Requests on a kept connection

The client's bytes come in chunks, with `EAGAIN` in between.  Each `EAGAIN` is a moment at which
`read_data` looks whether the request is complete; with the response the buffer is cleared.  So
a request is answered when the client stops at its end, and what is in the buffer behind a
complete request is gone.
-/

namespace Cask.Conn

open Storage Http Event Fuel

variable {σ : Type} {callback : Callback σ} {c : Connection} {io : Io σ} {message : Message} {q : Request}

/-! ## Receiving a message -/

/-- The bytes of some results of `recv`. -/
def received : List Recv → List UInt8
  | [] => []
  | .data chunk :: recvs => chunk.bytes ++ received recvs
  | .again :: recvs => received recvs
  | .closed :: recvs => received recvs
  | .error :: recvs => received recvs

theorem received_append (first second : List Recv) :
    received (first ++ second) = received first ++ received second := by
  induction first with
  | nil => rfl
  | cons result first ih => cases result <;> simp [received, ih]

/-- Bytes and `EAGAIN`. -/
def Recv.Quiet : Recv → Prop
  | .data _ => True
  | .again => True
  | .closed => False
  | .error => False

/-- The results of `recv` that bring a message: its bytes with `EAGAIN` anywhere in between, and
`EAGAIN` behind the last one. -/
structure Brings (message : Message) (recvs : List Recv) : Prop where
  bytes : received recvs = serialise message
  ends : ∃ front chunk, recvs = front ++ [.data chunk, .again] ∧ ∀ result ∈ front, result.Quiet

/-- The memory behind the received bytes does not look like the end of the header block whenever
`recv` blocks inside the message. -/
def CleanStops (callback : Callback σ) (c : Connection) (io : Io σ) (message : Message) : Prop :=
  ∀ cur c' io', Rounds callback (c, io) cur → blocked cur = some (c', io') →
    c'.buffer.size < (serialise message).length → Clean c'.req c'.buffer

/-- On the way through a message: what is in the buffer, and what is to come. -/
structure Receiving (message : Message) (q : Request) (c : Connection) (io : Io σ) (coming rest : List Recv) : Prop where
  inside : Inside c.buffer
  bytes : content c.buffer ++ received coming = serialise message
  progress : ∃ n, n ≤ c.buffer.size ∧ Progress message q n c.req
  recvs : io.recvs = coming ++ rest
  granted : Granted io.reallocs

theorem extends_whole {buf : Buffer} {coming : List UInt8}
    (bytes : content buf ++ coming = serialise message) : Extends buf (whole message) := by
  have length := congrArg List.length bytes
  rw [List.length_append, content_length] at length
  refine ⟨by rw [whole_size]; omega, ?_⟩
  intro i bound
  have here : (serialise message).getD i 0 = buf.data.byte i := by
    rw [← bytes, List.getD_append _ _ _ _ (by rwa [content_length]), content,
      Image.slice_getD bound, Nat.zero_add]
  have there : (whole message).data.byte i = (serialise message).getD i 0 := by
    have byte := whole_holds message i (by omega)
    rwa [Nat.zero_add] at byte
  rw [there, here]

/-- Room for a chunk, when memory is to be had. -/
theorem reserve_granted {reallocs : List (Option (List UInt8))} {buf : Buffer}
    (granted : Granted reallocs) (inside : Inside buf) :
    ∃ buf' reallocs', reserve reallocs buf = (.ok, buf', reallocs') ∧ content buf' = content buf ∧
      Inside buf' ∧
      Granted reallocs' := by
  rw [reserve]
  split
  · obtain ⟨fresh, outcome⟩ := granted.head
    obtain ⟨buf', resized, kept, size, -, block⟩ :=
      resizeBuffer_some (buf.size + readChunk) inside (Nat.le_add_right ..) (by simp [readChunk]) outcome
    refine ⟨buf', _, resized, kept, ?_, granted.tail⟩
    rw [Inside, size, block]
    exact Nat.le_add_right ..
  · exact ⟨buf, reallocs, rfl, rfl, inside, granted⟩

theorem content_size {buf buf' : Buffer} (same : content buf' = content buf) :
    buf'.size = buf.size := by
  rw [← content_length, same, content_length]

/-- A chunk is received. -/
theorem Receiving.data (callback : Callback σ) {chunk : Chunk} {coming rest : List Recv}
    (receiving : Receiving message q c io (.data chunk :: coming) rest) :
    ∃ c' io', readRound callback (c, io) = .ok (.again (c', io')) ∧
      Receiving message q c' io' coming rest := by
  obtain ⟨inside, bytes, ⟨n, low, progress⟩, recvs, granted⟩ := receiving
  obtain ⟨buf, reallocs, reserved, same, inside', granted'⟩ := reserve_granted granted inside
  refine ⟨{ c with buffer := appendBytes buf chunk.bytes },
    { io with recvs := coming ++ rest, reallocs := reallocs }, ?_, ?_⟩
  · rw [readRound]
    dsimp only
    rw [reserved]
    dsimp only
    rw [receive]
    dsimp only
    rw [recvs]
    rfl
  · refine ⟨inside_appendBytes _ inside', ?_, ⟨n, ?_, progress⟩, rfl, granted'⟩
    · rw [content_appendBytes, same, List.append_assoc]
      exact bytes
    · have size := content_size same
      simp only [appendBytes]
      omega

/-- `recv` blocks. -/
theorem Receiving.blocked {coming rest : List Recv}
    (receiving : Receiving message q c io (.again :: coming) rest) :
    ∃ c' io', blocked (c, io) = some (c', io') ∧ c'.req = c.req ∧
      Receiving message q c' io' coming rest := by
  obtain ⟨inside, bytes, ⟨n, low, progress⟩, recvs, granted⟩ := receiving
  obtain ⟨buf, reallocs, reserved, same, inside', granted'⟩ := reserve_granted granted inside
  refine ⟨{ c with buffer := buf }, { io with recvs := coming ++ rest, reallocs := reallocs },
    ?_, rfl, ?_⟩
  · simp only [Conn.blocked, reserved, recvs, List.cons_append]
  · refine ⟨inside', ?_, ⟨n, ?_, progress⟩, rfl, granted'⟩
    · rw [same]
      exact bytes
    · have size := content_size same
      dsimp only
      omega

section Message

variable (plain : message.Plain) (small : (serialise message).length < 2 ^ 31)

include plain small

/-- `recv` blocks inside the message: the parser asks for more, and the loop goes on. -/
theorem Receiving.again {coming rest : List Recv} (start : scanDone zeroed (whole message) = some q)
    (receiving : Receiving message q c io (.again :: coming) rest) (more : received coming ≠ [])
    (clean : CleanStops callback c io message) :
    ∃ c' io', readRound callback (c, io) = .ok (.again (c', io')) ∧
      Receiving message q c' io' coming rest := by
  obtain ⟨c', io', stop, -, receiving'⟩ := receiving.blocked
  obtain ⟨inside, bytes, ⟨n, low, progress⟩, recvs, granted⟩ := receiving'
  have length := congrArg List.length bytes
  rw [List.length_append, content_length] at length
  have positive := List.length_pos_iff.mpr more
  have short : c'.buffer.size < (serialise message).length := by omega
  obtain ⟨r, call, progress'⟩ := progress.more plain small start (extends_whole bytes) low short
    (clean (c, io) c' io' .refl stop short)
  refine ⟨{ c' with req := r }, io', ?_, inside, bytes, ⟨_, Nat.le_refl _, progress'⟩,
    recvs, granted⟩
  rw [readRound_blocked stop, onBlocked, call]

/-- The loop of `read_data` comes to the end of the message. -/
theorem Receiving.completes {front : List Recv} {chunk : Chunk} {rest : List Recv}
    (start : scanDone zeroed (whole message) = some q) (quiet : ∀ result ∈ front, result.Quiet)
    (receiving : Receiving message q c io (front ++ [.data chunk, .again]) rest)
    (clean : CleanStops callback c io message) :
    ∃ c₁ io₁ c₂ io₂, Rounds callback (c, io) (c₁, io₁) ∧
      Conn.blocked (c₁, io₁) = some (c₂, io₂) ∧ Receiving message q c₂ io₂ [] rest := by
  induction front generalizing c io with
  | nil =>
    obtain ⟨c₁, io₁, round, receiving⟩ := Receiving.data callback receiving
    obtain ⟨c₂, io₂, stop, -, receiving⟩ := receiving.blocked
    exact ⟨c₁, io₁, c₂, io₂, .step .refl round, stop, receiving⟩
  | cons result front ih =>
    have quiet' : ∀ later ∈ front, later.Quiet :=
      fun later member => quiet later (List.mem_cons_of_mem _ member)
    -- one round, after which the rest of the message is to come
    have go_on : ∀ c' io', readRound callback (c, io) = .ok (.again (c', io')) →
        Receiving message q c' io' (front ++ [.data chunk, .again]) rest →
        ∃ c₁ io₁ c₂ io₂, Rounds callback (c, io) (c₁, io₁) ∧
        Conn.blocked (c₁, io₁) = some (c₂, io₂) ∧ Receiving message q c₂ io₂ [] rest := by
      intro c' io' round receiving'
      have clean' : CleanStops callback c' io' message :=
        fun cur c'' io'' rounds => clean cur c'' io'' (rounds.head round)
      obtain ⟨c₁, io₁, c₂, io₂, rounds, found⟩ := ih quiet' receiving' clean'
      exact ⟨c₁, io₁, c₂, io₂, rounds.head round, found⟩
    cases result with
    | data first =>
      obtain ⟨c', io', round, receiving'⟩ := Receiving.data callback receiving
      exact go_on c' io' round receiving'
    | again =>
      have more : received (front ++ [.data chunk, .again]) ≠ [] := by
        have positive := chunk.positive
        rw [received_append]
        simp only [received, List.append_nil]
        intro none
        rw [List.append_eq_nil_iff.mp none |>.2] at positive
        exact absurd positive (by decide)
      obtain ⟨c', io', round, receiving'⟩ := Receiving.again plain small start receiving more clean
      exact go_on c' io' round receiving'
    | closed => exact (quiet .closed (List.mem_cons_self ..)).elim
    | error => exact (quiet .error (List.mem_cons_self ..)).elim

omit plain small in
theorem Receiving.full {rest : List Recv} (receiving : Receiving message q c io [] rest) :
    c.buffer.size = (serialise message).length := by
  have full := congrArg List.length receiving.bytes
  rwa [List.length_append, content_length] at full

/-- The loop of `read_data` comes to the end of the message and reads it. -/
theorem Receiving.reads {front : List Recv} {chunk : Chunk} {rest : List Recv}
    (start : scanDone zeroed (whole message) = some q) (quiet : ∀ result ∈ front, result.Quiet)
    (receiving : Receiving message q c io (front ++ [.data chunk, .again]) rest)
    (clean : CleanStops callback c io message) :
    ∃ c₁ io₁ c₂ io₂ req, Rounds callback (c, io) (c₁, io₁) ∧
      Conn.blocked (c₁, io₁) = some (c₂, io₂) ∧
      parseRequest c₂.req c₂.buffer = (.ok, req) ∧ Reads message c₂.buffer req ∧
      io₂.recvs = rest := by
  obtain ⟨c₁, io₁, c₂, io₂, rounds, stop, receiving'⟩ :=
    receiving.completes plain small start quiet clean
  obtain ⟨n, low, progress⟩ := receiving'.progress
  obtain ⟨req, call, reads⟩ :=
    progress.finish plain small start (extends_whole receiving'.bytes) receiving'.full
  exact ⟨c₁, io₁, c₂, io₂, req, rounds, stop, call, reads, receiving'.recvs⟩

omit plain small in
theorem Waits.receiving {coming rest : List Recv} (waits : Waits c io)
    (start : scanDone zeroed (whole message) = some q) (bytes : received coming = serialise message)
    (recvs : io.recvs = coming ++ rest) : Receiving message q c io coming rest := by
  have empty : content c.buffer = [] := content_eq_nil.mpr waits.idle.empty
  refine ⟨?_, ?_, ⟨0, Nat.zero_le _, ?_⟩, recvs, waits.granted⟩
  · rw [Inside, waits.idle.empty]
    exact Nat.zero_le _
  · rw [empty]
    exact bytes
  · rw [waits.idle.request]
    exact .head (.zeroed 0) start

omit plain small in
/-- A request that is complete is answered, and the response always comes to its end. -/
theorem Waits.exchange {c₁ c₂ : Connection} {io₁ io₂ : Io σ} {req : Request} (waits : Waits c io)
    (rounds : Rounds callback (c, io) (c₁, io₁)) (stop : blocked (c₁, io₁) = some (c₂, io₂))
    (parsed : parseRequest c₂.req c₂.buffer = (.ok, req)) :
    ∃ reply result app, Exchange callback c io reply result ∧ reply.req = req ∧
      reply.buffer = c₂.buffer ∧
      callback reply.app reply.req reply.buffer = (reply.status, reply.body, app) ∧
      result.2.recvs = io₂.recvs := by
  have reading := rounds.reading.trans (blocked_reading stop)
  cases answered : callback io₂.app req c₂.buffer with
  | mk status answer =>
    obtain ⟨body, app⟩ := answer
    have ready : Ready { c₂ with req := req, keepAlive := c₂.keepAlive || req.version == .http11 }
        { io₂ with app := app } :=
        ⟨(reading.ready waits.idle.ready).entry, (reading.ready waits.idle.ready).granted⟩
    have filled :=
      fillResponse_granted (c₂.buffer, io₂.reallocs) (waits.granted.suffix reading.reallocs) req.version
      (c₂.keepAlive || req.version == .http11) status body
    have starts := sendResponse_starts ready (responseText_ne_nil _ _ _ _) filled.content
    have polite : Polite io₂.sends := by
      rw [reading.sends]
      exact waits.polite
    have completes : ∃ result, Responding callback _ _ status body result ∧ Complete _ _ _ result :=
      starts.completes polite
    obtain ⟨result, run, complete⟩ := completes
    have sent : result.2.sent =
        io.sent ++ responseText req.version (c₂.keepAlive || req.version == .http11) status body := by
      rw [complete.sent]
      exact congrArg (· ++ _) reading.sent
    exact ⟨_, result, app, .intro rounds stop parsed answered run complete.over sent, rfl, rfl,
      answered, run.later.recvs⟩

/-- A message that arrives on a waiting connection is answered. -/
theorem exchange_of_message {coming rest : List Recv} (waits : Waits c io)
    (brings : Brings message coming) (recvs : io.recvs = coming ++ rest)
    (clean : CleanStops callback c io message) :
    ∃ reply result app, Exchange callback c io reply result ∧ Reads message reply.buffer reply.req ∧
      callback reply.app reply.req reply.buffer = (reply.status, reply.body, app) ∧
      result.2.recvs = rest := by
  obtain ⟨q, start, -⟩ := exists_head plain small
  obtain ⟨bytes, front, chunk, rfl, quiet⟩ := brings
  obtain ⟨c₁, io₁, c₂, io₂, req, rounds, stop, parsed, reads, left⟩ :=
    (waits.receiving start bytes recvs).reads plain small start quiet clean
  obtain ⟨reply, result, app, exchange, rfl, buffer, answered, used⟩ :=
    waits.exchange rounds stop parsed
  rw [← buffer] at reads
  exact ⟨reply, result, app, exchange, reads, answered, used.trans left⟩

end Message

/-! ## Bytes that count once -/

theorem reserve_size {reallocs reallocs' : List (Option (List UInt8))} {status : Status}
    {buf buf' : Buffer} (reserved : reserve reallocs buf = (status, buf', reallocs')) :
    buf'.size = buf.size := by
  unfold reserve resizeBuffer at reserved
  split at reserved
  · split at reserved
    · next zero => exact absurd zero (by simp [readChunk])
    · split at reserved <;> cases reserved
      · rfl
      · exact Nat.min_eq_left (Nat.le_add_right ..)
  · cases reserved
    rfl

theorem blocked_size {c' : Connection} {io' : Io σ} (stop : blocked (c, io) = some (c', io')) :
    c'.buffer.size = c.buffer.size ∧ c'.req = c.req := by
  obtain ⟨buffer, reallocs, recvs, reserved, rfl, -⟩ := blocked_cases stop
  exact ⟨reserve_size reserved, rfl⟩

/-- The chunks among some results of `recv`. -/
def chunks : List Recv → Nat
  | [] => 0
  | .data _ :: recvs => chunks recvs + 1
  | .again :: recvs => chunks recvs
  | .closed :: recvs => chunks recvs
  | .error :: recvs => chunks recvs

theorem blocked_chunks {c' : Connection} {io' : Io σ} (stop : blocked (c, io) = some (c', io')) :
    chunks io'.recvs = chunks io.recvs := by
  obtain ⟨buffer, reallocs, recvs, -, -, rfl, found | ⟨found, rfl⟩⟩ := blocked_cases stop
  · rw [found]
    rfl
  · rw [found]

/-- Nothing has been received. -/
structure Untouched (c : Connection) : Prop where
  empty : c.buffer.size = 0
  request : c.req = zeroed

/-- The parser has nothing to say about no bytes. -/
theorem parseRequest_untouched (untouched : Untouched c) :
    parseRequest c.req c.buffer = (.uf, zeroed) := by
  rw [untouched.request, parseRequest_open (.inl rfl)]
  have nothing : span c.buffer.data lf (asInt c.buffer.size).toNat 0 = none := by
    rw [untouched.empty]
    rfl
  simp only [enter, zeroed, parseStatusLine, nothing]

/-- A round receives a chunk, or changes nothing that counts. -/
theorem readRound_chunks {c' : Connection} {io' : Io σ}
    (round : readRound callback (c, io) = .ok (.again (c', io'))) :
    chunks io'.recvs < chunks io.recvs ∨ chunks io'.recvs = chunks io.recvs ∧
      (Untouched c → Untouched c') := by
  obtain ⟨chunk, recvs, buffer, reallocs, -, found, -, rfl⟩ | ⟨c'', req, stop, parsed, rfl⟩ :=
    readRound_again round
  · left
    rw [found]
    exact Nat.lt_succ_self _
  · right
    refine ⟨blocked_chunks stop, fun untouched => ?_⟩
    obtain ⟨size, same⟩ := blocked_size stop
    have untouched' : Untouched c'' := ⟨size.trans untouched.empty, same.trans untouched.request⟩
    rw [parseRequest_untouched untouched'] at parsed
    cases parsed
    exact ⟨untouched'.empty, rfl⟩

theorem Rounds.chunks {c' : Connection} {io' : Io σ} (rounds : Rounds callback (c, io) (c', io'))
    (untouched : Untouched c) :
    chunks io'.recvs < chunks io.recvs ∨ Conn.chunks io'.recvs = Conn.chunks io.recvs ∧
      Untouched c' := by
  generalize finish : (c', io') = cur at rounds
  induction rounds generalizing c' io' with
  | refl =>
    cases finish
    exact .inr ⟨rfl, untouched⟩
  | @step cur next _ round ih =>
    cases finish
    obtain ⟨c₁, io₁⟩ := cur
    obtain before | ⟨before, untouched'⟩ := ih rfl
    · obtain fewer | ⟨same, -⟩ := readRound_chunks round
      · exact .inl (Nat.lt_trans fewer before)
      · exact .inl (same ▸ before)
    · obtain fewer | ⟨same, keeps⟩ := readRound_chunks round
      · exact .inl (before ▸ fewer)
      · exact .inr ⟨same.trans before, keeps untouched'⟩

/-- Every request that is answered takes at least one chunk. -/
theorem Exchange.chunks {reply : Reply σ} {result : Option Connection × Io σ}
    (exchange : Exchange callback c io reply result) (untouched : Untouched c) :
    chunks result.2.recvs < chunks io.recvs := by
  cases exchange with
  | @intro c₁ c₂ io₁ io₂ req status body text app _ rounds stop parsed answered run finished sent =>
    have sending : Conn.chunks result.2.recvs = Conn.chunks io₂.recvs :=
      congrArg Conn.chunks run.later.recvs
    rw [sending, blocked_chunks stop]
    obtain fewer | ⟨-, untouched'⟩ := rounds.chunks untouched
    · exact fewer
    · -- without a chunk, the parser has seen nothing
      obtain ⟨size, same⟩ := blocked_size stop
      have untouched'' : Untouched c₂ :=
        ⟨size.trans untouched'.empty, same.trans untouched'.request⟩
      rw [parseRequest_untouched untouched''] at parsed
      cases parsed

theorem Waits.untouched (waits : Waits c io) : Untouched c := ⟨waits.idle.empty, waits.idle.request⟩

/-- There are no more replies than chunks. -/
theorem Session.chunks {replies : List (Reply σ)} {result : Option Connection × Io σ}
    (session : Session callback c io replies result) (waits : Waits c io) :
    replies.length + chunks result.2.recvs ≤ Conn.chunks io.recvs ∧
      ∀ c' io', result = (some c', io') → Waits c' io' := by
  induction session with
  | start =>
    refine ⟨by simp, fun c' io' same => ?_⟩
    cases same
    exact waits
  | next _ exchange ih =>
    obtain ⟨count, wait⟩ := ih
    have waits' := wait _ _ rfl
    have fewer := exchange.chunks waits'.untouched
    refine ⟨?_, fun c' io' same => ?_⟩
    · rw [List.length_append, List.length_singleton]
      dsimp only at count
      omega
    · subst same
      exact (exchange.waits waits').1

/-- The content grows from round to round. -/
theorem readRound_size {c' : Connection} {io' : Io σ}
    (round : readRound callback (c, io) = .ok (.again (c', io'))) :
    c.buffer.size ≤ c'.buffer.size := by
  obtain ⟨chunk, recvs, buffer, reallocs, reserved, -, rfl, -⟩ | ⟨c'', req, stop, -, rfl⟩ :=
    readRound_again round
  · have size := reserve_size reserved
    simp only [appendBytes]
    omega
  · exact Nat.le_of_eq (blocked_size stop).1.symm

theorem run_size {cur next : Connection × Io σ}
    (run : Relation.ReflTransGen (fun cur next => readRound callback cur = .ok (.again next)) cur next) :
    cur.1.buffer.size ≤ next.1.buffer.size := by
  induction run with
  | refl => exact Nat.le_refl _
  | tail _ round ih => exact Nat.le_trans ih (readRound_size round)

theorem blocked_data {chunk : Chunk} {rest : List Recv} (recvs : io.recvs = .data chunk :: rest) :
    blocked (c, io) = none := by
  simp only [blocked, recvs]
  split <;> rfl

/-- A round that receives a chunk. -/
theorem readRound_data {c' : Connection} {io' : Io σ} {chunk : Chunk} {rest : List Recv}
    (recvs : io.recvs = .data chunk :: rest) (round : readRound callback (c, io) = .ok (.again (c', io'))) :
    c'.buffer.size = c.buffer.size + chunk.bytes.length ∧ io'.recvs = rest := by
  obtain ⟨chunk', recvs', buffer, reallocs, reserved, found, rfl, rfl⟩ | ⟨c'', req, stop, -, -⟩ := readRound_again round
  · cases recvs.symm.trans found
    simp [appendBytes, reserve_size reserved]
  · rw [blocked_data recvs] at stop
    cases stop

/-- A message in one chunk stops at its end only. -/
theorem cleanStops_single {chunk : Chunk} {rest : List Recv}
    (recvs : io.recvs = .data chunk :: rest)
    (bytes : chunk.bytes.length = (serialise message).length) :
    CleanStops callback c io message := by
  intro cur c' io' rounds stop short
  obtain same | ⟨⟨c₁, io₁⟩, round, later⟩ := rounds.run.cases_head
  · cases same
    rw [blocked_data recvs] at stop
    cases stop
  · have grown := (readRound_data recvs round).1
    have later := run_size later
    have size := (blocked_size stop).1
    dsimp only at later size
    omega

/-- A message in two chunks also stops where it is cut. -/
theorem cleanStops_cut {first second : Chunk} {rest : List Recv}
    (recvs : io.recvs = .data first :: .again :: .data second :: rest)
    (bytes : first.bytes.length + second.bytes.length = (serialise message).length)
    (cut : ∀ cur c' io', readRound callback (c, io) = .ok (.again cur) → blocked cur = some (c', io') →
      Clean c'.req c'.buffer) :
    CleanStops callback c io message := by
  intro cur c' io' rounds stop short
  obtain same | ⟨⟨c₁, io₁⟩, round, later⟩ := rounds.run.cases_head
  · cases same
    rw [blocked_data recvs] at stop
    cases stop
  obtain ⟨grown, recvs₁⟩ := readRound_data recvs round
  obtain same | ⟨⟨c₂, io₂⟩, round₁, later⟩ := later.cases_head
  · cases same
    exact cut _ _ _ round stop
  -- the parser has asked for more
  have recvs₂ : c₂.buffer.size = c₁.buffer.size ∧ io₂.recvs = .data second :: rest := by
    obtain ⟨chunk, recvs', buffer, reallocs, -, found, -⟩ | ⟨c'', req, stop', -, rfl⟩ := readRound_again round₁
    · cases recvs₁.symm.trans found
    · have size := (blocked_size stop').1
      obtain ⟨-, -, recvs', -, -, rfl, found | ⟨found, -⟩⟩ := blocked_cases stop'
      · cases recvs₁.symm.trans found
        exact ⟨size, rfl⟩
      · cases recvs₁.symm.trans found
  obtain same | ⟨⟨c₃, io₃⟩, round₂, later⟩ := later.cases_head
  · cases same
    rw [blocked_data recvs₂.2] at stop
    cases stop
  · have grown₂ := (readRound_data recvs₂.2 round₂).1
    have later := run_size later
    have size := (blocked_size stop).1
    dsimp only at later size
    omega

/-! ## Messages one after the other -/

/-- A connection that has just been accepted, and what arrives on it. -/
def arrives (recvs : List Recv) : Io Unit := ⟨recvs, [], [], [], some .epollin, [], [], ()⟩

theorem accepted_waits (recvs : List Recv) : Waits accepted (arrives recvs) :=
  ⟨⟨rfl, rfl, rfl, rfl, rfl, rfl, fun _ member => nomatch member⟩, fun _ member => (nomatch member),
    fun _ member => nomatch member⟩

/-- The reply to a message of version 1.1. -/
structure Answered (callback : Callback σ) (message : Message) (reply : Reply σ) : Prop where
  reads : Reads message reply.buffer reply.req
  answer : ∃ app, callback reply.app reply.req reply.buffer = (reply.status, reply.body, app)
  text : reply.text = responseText message.version true reply.status reply.body

/-- The rest of the messages, after some have been served. -/
theorem Session.serves (served : List Message) {done : List (Reply σ)} {c' : Connection} {io' : Io σ}
    (session : Session callback c io done (some c', io')) (waits : Waits c' io') (count : done.length = served.length)
    (pending : List (Message × List Recv))
    (plain : ∀ part ∈ pending, part.1.Plain ∧ part.1.version = .http11 ∧ (serialise part.1).length < 2 ^ 31)
    (brings : ∀ part ∈ pending, Brings part.1 part.2) (recvs : io'.recvs = (pending.map (·.2)).flatten)
    (clean : ∀ replies c' io' message, Session callback c io replies (some c', io') →
      (served ++ pending.map (·.1))[replies.length]? = some message →
      CleanStops callback c' io' message) :
    ∃ replies c'' io'', Session callback c io (done ++ replies) (some c'', io'') ∧ Waits c'' io'' ∧
      List.Forall₂ (Answered callback) (pending.map (·.1)) replies ∧
      io''.sent = io'.sent ++ (replies.map (·.text)).flatten ∧ io''.recvs = [] := by
  induction pending generalizing served done c' io' with
  | nil =>
    refine ⟨[], c', io', ?_, waits, .nil, ?_, recvs⟩
    · rw [List.append_nil]
      exact session
    · simp
  | cons part pending ih =>
    obtain ⟨message, coming⟩ := part
    obtain ⟨plain₀, version, small⟩ := plain (message, coming) (List.mem_cons_self ..)
    have clean₀ : CleanStops callback c' io' message := by
      apply clean done c' io' message session
      rw [count]
      simp
    have recvs₀ : io'.recvs = coming ++ (pending.map (·.2)).flatten := recvs
    -- the first message is answered in one exchange
    obtain ⟨reply, result, app, exchange, reads, answer, left⟩ :=
      exchange_of_message plain₀ small waits (brings _ (List.mem_cons_self ..)) recvs₀ clean₀
    obtain ⟨complete, sent, -⟩ := exchange.complete waits.idle.ready waits.granted waits.polite
    have kept : (c'.keepAlive || reply.req.version == .http11) = true := by
      rw [reads.version, version]
      simp
    obtain ⟨c₁, open_, -⟩ := complete.kept kept
    obtain ⟨conn, io₁⟩ := result
    obtain rfl : conn = some c₁ := open_
    have text : reply.text = responseText message.version true reply.status reply.body := by
      have same := List.append_cancel_left (sent.symm.trans complete.sent)
      rw [kept, reads.version] at same
      exact same
    have count' : (done ++ [reply]).length = (served ++ [message]).length := by simp [count]
    -- the others follow on the connection that it leaves
    obtain ⟨replies, c₂, io₂, session', waits', answered, sent', recvs'⟩ :=
      ih (served ++ [message]) (session.next exchange)
      (exchange.waits waits).1 count' (fun part member => plain part (List.mem_cons_of_mem _ member))
      (fun part member => brings part (List.mem_cons_of_mem _ member)) left
      (fun replies c'' io'' later earlier found => clean replies c'' io'' later earlier (by simpa using found))
    refine ⟨reply :: replies, c₂, io₂, ?_, waits',
      .cons ⟨reads, ⟨app, answer⟩, text⟩ answered, ?_, recvs'⟩
    · simpa using session'
    · rw [sent', sent]
      simp

/-- Messages of version 1.1 that each end where the client stops are answered one by one: as many
responses as messages, each of them to its message, and nothing else. -/
theorem serves_each (messages : List (Message × List Recv)) (waits : Waits c io)
    (plain : ∀ part ∈ messages, part.1.Plain ∧ part.1.version = .http11 ∧ (serialise part.1).length < 2 ^ 31)
    (brings : ∀ part ∈ messages, Brings part.1 part.2) (recvs : io.recvs = (messages.map (·.2)).flatten)
    (clean : ∀ replies c' io' message, Session callback c io replies (some c', io') →
      (messages.map (·.1))[replies.length]? = some message → CleanStops callback c' io' message) :
    ∃ replies c' io', Session callback c io replies (some c', io') ∧ Waits c' io' ∧
      List.Forall₂ (Answered callback) (messages.map (·.1)) replies ∧
      io'.sent = io.sent ++ (replies.map (·.text)).flatten ∧ io'.recvs = [] ∧
      ∀ replies' result, Session callback c io replies' result → replies' <+: replies := by
  obtain ⟨replies, c', io', session, waits', answered, sent, used⟩ :=
    Session.serves [] .start waits rfl messages plain brings recvs clean
  rw [List.nil_append] at session
  refine ⟨replies, c', io', session, waits', answered, sent, used, fun replies' result other => ?_⟩
  apply session.prefix_of_stopped _ other
  intro reply after exchange
  have fewer := exchange.chunks waits'.untouched
  rw [used] at fewer
  exact absurd fewer (Nat.not_lt_zero _)

/-- A request for the root, without headers. -/
def home : Message := ⟨.get, ascii "/", .http11, [], []⟩

theorem home_plain : home.Plain :=
  ⟨by decide +kernel, by decide, fun _ member => (nomatch member), fun _ member => (nomatch member),
    by decide, rfl⟩

/-- A route callback that finds everything and says nothing. -/
def emptyPage : Callback Unit := fun app _ _ => (.status200, [], app)

/-- The request in one piece. -/
def oneHome : Chunk := ⟨serialise home, by decide +kernel, by decide +kernel⟩

/-- The request line in a piece of its own. -/
def homeLine : Chunk := ⟨ascii "GET / HTTP/1.1\r\n", by decide +kernel, by decide +kernel⟩

def homeEnd : Chunk := ⟨crlf, by decide, by decide⟩

def cutHome : List Recv := [.data homeLine, .again, .data homeEnd, .again]

/-- Two requests, of which the first arrives in two pieces. -/
def twoRequests : List (Message × List Recv) := [(home, cutHome), (home, [.data oneHome, .again])]

/-- The buffer that holds the request line. -/
def lineBuffer : Buffer := appendBytes ⟨0, readChunk, moved Image.empty readChunk []⟩ homeLine.bytes

/-- Behind the request line there is the memory that `realloc` gave. -/
theorem cutHome_clean {rest : List Recv} {cur : Connection × Io Unit} {c' : Connection} {io' : Io Unit}
    (round : readRound emptyPage (accepted, arrives (cutHome ++ rest)) = .ok (.again cur))
    (stop : blocked cur = some (c', io')) : Clean c'.req c'.buffer := by
  have first : reserve [] accepted.buffer = (.ok, ⟨0, readChunk, moved Image.empty readChunk []⟩, []) := by
    simp [reserve, resizeBuffer, accepted, emptyBuffer, readChunk]
  have step : readRound emptyPage (accepted, arrives (cutHome ++ rest)) = receive emptyPage
      { accepted with buffer := ⟨0, readChunk, moved Image.empty readChunk []⟩ } (arrives (cutHome ++ rest)) :=
    readRound_ok first
  rw [step] at round
  simp only [receive, arrives, cutHome, List.cons_append, List.nil_append] at round
  obtain rfl := Next.again.inj (Except.ok.inj round)
  -- the next chunk does not fit, and the bytes are moved
  have second : reserve [] lineBuffer =
      (.ok, ⟨16, 16 + readChunk, moved lineBuffer.data (16 + readChunk) []⟩, []) := by
    have size : lineBuffer.size = 16 := by rfl
    have full : lineBuffer.size + readChunk > lineBuffer.cap := by decide
    rw [reserve, if_pos full, resizeBuffer_granted (by decide) rfl, size]
    rfl
  obtain ⟨buffer, reallocs, recvs, reserved, rfl, -⟩ := blocked_cases stop
  cases second.symm.trans reserved
  have runs : runsOutAt zeroed ⟨16, 16 + readChunk, moved lineBuffer.data (16 + readChunk) []⟩ = some 16 := by
    decide +kernel
  have notBlank : atBlankLine (moved lineBuffer.data (16 + readChunk) []) 16 = false := by decide +kernel
  intro pos here
  cases runs.symm.trans here
  exact notBlank

/-- Both requests are answered, the second one in the buffer that the response to the first was in. -/
theorem serves_each_home :
    ∃ first second c' io',
    Session emptyPage accepted (arrives (cutHome ++ [.data oneHome, .again])) [first, second] (some c', io') ∧
      Answered emptyPage home first ∧ Answered emptyPage home second := by
  let io := arrives (cutHome ++ [.data oneHome, .again])
  have waits : Waits accepted io := accepted_waits _
  have brings : ∀ part ∈ twoRequests, Brings part.1 part.2 := by
    simp only [twoRequests, List.forall_mem_cons]
    refine ⟨⟨by decide +kernel, [.data homeLine, .again], homeEnd, rfl, by simp [Recv.Quiet]⟩,
      ⟨List.append_nil _, [], oneHome, rfl, by simp⟩, by simp⟩
  have plain : ∀ part ∈ twoRequests,
      part.1.Plain ∧ part.1.version = .http11 ∧ (serialise part.1).length < 2 ^ 31 := by
    simp only [twoRequests, List.forall_mem_cons]
    exact ⟨⟨home_plain, rfl, by decide +kernel⟩, ⟨home_plain, rfl, by decide +kernel⟩, by simp⟩
  have clean₁ : CleanStops emptyPage accepted io home :=
    cleanStops_cut rfl (by decide +kernel) fun _ _ _ round stop => cutHome_clean round stop
  have clean : ∀ replies c' io' message, Session emptyPage accepted io replies (some c', io') →
      [home, home][replies.length]? = some message → CleanStops emptyPage c' io' message := by
    intro replies c' io' message session found
    cases session with
    | start =>
      cases found
      exact clean₁
    | @next c₁ io₁ replies reply result earlier exchange =>
      cases earlier with
      | start =>
        -- the first request has used up the bytes of its own
        obtain ⟨reply', result', -, exchange', -, -, left⟩ := exchange_of_message home_plain (by decide +kernel) waits
          (brings _ List.mem_cons_self) (show io.recvs = cutHome ++ [.data oneHome, .again] from rfl) clean₁
        obtain ⟨-, rfl⟩ := exchange.unique exchange'
        cases found
        exact cleanStops_single left rfl
      | next => simp at found
  obtain ⟨replies, c', io', session, -, answered, -⟩ :=
    serves_each twoRequests waits plain brings rfl clean
  cases answered with
  | cons first rest =>
    cases rest with
    | cons second rest =>
      cases rest
      exact ⟨_, _, c', io', session, first, second⟩

/-- The request twice, in one piece. -/
def twoHomes : Chunk := ⟨serialise home ++ serialise home, by decide +kernel, by decide +kernel⟩

/-- Two requests in one piece are not both answered. -/
theorem not_serves_each_burst :
    home.Plain ∧ home.version = .http11 ∧ twoHomes.bytes = serialise home ++ serialise home ∧
    Waits accepted (arrives [.data twoHomes, .again]) ∧
    ∀ replies result, Session emptyPage accepted (arrives [.data twoHomes, .again]) replies result →
      ¬ List.Forall₂ (Answered emptyPage) [home, home] replies := by
  refine ⟨home_plain, rfl, rfl, accepted_waits _, fun replies result session answered => ?_⟩
  have count : replies.length + chunks result.2.recvs ≤ 1 := (session.chunks (accepted_waits _)).1
  have two : 2 = replies.length := answered.length_eq
  omega

end Cask.Conn
