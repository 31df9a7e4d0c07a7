import Cask.Connection.Pipeline

/-! # Connections as services

A client knows of requests and responses, and of nothing in between.  A service is a machine that
answers messages and keeps a state; if the route callbacks do what a service does, request by
request, then the bytes that go out on a connection are the responses of the service, however the
messages are cut into chunks and the responses into calls of `send`.
-/

namespace Cask.Conn

open Storage Http Event Fuel

variable {σ τ : Type} {callback : Callback σ} {c c' : Connection} {io io' : Io σ} {message : Message}

/-! ## What a route callback is handed -/

/-- The request of a message, in ranges that the callbacks can use: they read up to the space behind
the uri, and take the length of the body for a number. -/
structure Handed (message : Message) (buf : Buffer) (req : Request) : Prop extends Reads message buf req where
  uriOff : 0 ≤ req.uri.off
  uriLen : 0 ≤ req.uri.len
  space : buf.data.byte (req.uri.off + req.uri.len).toNat = 32
  bodyOff : 0 ≤ req.body.off
  bodyLen : 0 ≤ req.body.len

/-- A uri that has been parsed has a space behind it. -/
theorem scanDone_uri {buf : Buffer} {q : Request} (done : scanDone zeroed buf = some q) :
    0 ≤ q.uri.off ∧ 0 ≤ q.uri.len ∧ buf.data.byte (q.uri.off + q.uri.len).toNat = 32 := by
  obtain ⟨p, entered, state, scanned⟩ := scanDone_some.mp done
  -- the header lines do not touch the uri
  have same : q.uri = p.uri := by
    obtain ⟨headers, pos, -, -, moved⟩ := scan_moved buf (maxHeaders - p.headers.length) p
    rw [scanned] at moved
    obtain rfl : q = _ := moved
    rfl
  rw [same]
  have fresh : zeroed.state = .init := rfl
  simp only [enter, fresh, parseStatusLine] at entered
  cases line : span buf.data lf (asInt buf.size).toNat 0 with
  | none =>
    rw [line] at entered
    cases entered
  | some lineLen =>
    rw [line] at entered
    dsimp only at entered
    obtain rejected | ⟨method, version, uri, within, space, accepted⟩ :=
      parseTokens_cases zeroed buf.data lineLen
    · rw [rejected] at entered
      cases entered
    · rw [accepted] at entered
      cases entered
      exact ⟨within.1, within.2.1, space⟩

section Message

variable {buf : Buffer} {req q : Request} {n : Nat} (plain : message.Plain)
  (small : (serialise message).length < 2 ^ 31)

/-- The space behind the uri is one of the bytes of the message. -/
theorem space_of_whole (start : scanDone zeroed (whole message) = some q)
    (ext : Extends buf (whole message)) (full : buf.size = (serialise message).length) :
    buf.data.byte (q.uri.off + q.uri.len).toNat = 32 := by
  obtain ⟨-, -, space⟩ := scanDone_uri start
  have inside : (q.uri.off + q.uri.len).toNat < buf.size := by
    by_contra outside
    rw [full, Nat.not_lt] at outside
    rw [whole, holding_zeroPast _ _ outside] at space
    cases space
  rw [← space]
  exact ext.bytes _ inside

include plain small

/-- The request that a call on all of the message returns. -/
theorem Progress.handed (start : scanDone zeroed (whole message) = some q)
    (progress : Progress message q n req) (ext : Extends buf (whole message))
    (full : buf.size = (serialise message).length) :
    ∃ r, parseRequest req buf = (.ok, r) ∧ Handed message buf r := by
  have total := serialise_length message
  obtain ⟨-, -, -, texts, fromLines, empty, position⟩ := head_facts plain small start ext (by omega)
  obtain ⟨uriOff, uriLen, -⟩ := scanDone_uri start
  have space := space_of_whole start ext full
  obtain ⟨r, call, reads⟩ := progress.finish plain small start ext full
  have low : asInt q.readBytes = q.readBytes := asInt_nat (by omega)
  -- the uri is the one of the header block, and the body empty or as long as the message's
  suffices same : r.uri = q.uri ∧ 0 ≤ r.body.off ∧ 0 ≤ r.body.len by
    obtain ⟨uri, bodyOff, bodyLen⟩ := same
    rw [← uri] at uriOff uriLen space
    exact ⟨r, call, { reads with uriOff, uriLen, space, bodyOff, bodyLen }⟩
  cases progress with
  | head waiting done =>
    have doneHere : scanDone req buf = some q := by
      rw [scanDone_congr full ext.bytes]
      exact done
    rw [parseRequest_scanDone waiting.isOpen doneHere] at call
    rcases startBody_announced plain texts fromLines empty with ⟨none, finished⟩ | announced
    · rw [finished] at call
      cases call
      simp [empty]
    · rw [announced] at call
      have body := parseBody_body (q.withBody message.body.length) buf
      have uri : (parseBody (q.withBody message.body.length) buf).2.uri = q.uri := by
        rcases parseBody_cases (q.withBody message.body.length) buf with
          ⟨-, same⟩ | ⟨-, -, same⟩ | ⟨-, -, same⟩ <;> rw [same] <;> rfl
      rw [call] at body uri
      refine ⟨uri, ?_⟩
      rw [body]
      simp [Request.withBody, low]
  | body pos nonempty =>
    rw [parseRequest_body rfl, parseBody_front small position (by omega) ext nonempty pos,
      if_neg (by omega)] at call
    cases call
    simp [Request.withBody, low]

/-- A message that arrives on a waiting connection is handed to the route's callback. -/
theorem exchange_handed {coming rest : List Recv} (waits : Waits c io)
    (brings : Brings message coming) (recvs : io.recvs = coming ++ rest)
    (clean : CleanStops callback c io message) :
    ∃ reply result, Exchange callback c io reply result ∧ Handed message reply.buffer reply.req ∧
      result.2.recvs = rest := by
  obtain ⟨q, start, -⟩ := exists_head plain small
  obtain ⟨bytes, front, chunk, rfl, quiet⟩ := brings
  obtain ⟨c₁, io₁, c₂, io₂, rounds, stop, receiving⟩ :=
    (waits.receiving start bytes recvs).completes plain small start quiet clean
  obtain ⟨n, -, progress⟩ := receiving.progress
  obtain ⟨req, parsed, handed⟩ :=
    Progress.handed plain small start progress (extends_whole receiving.bytes) receiving.full
  obtain ⟨reply, result, -, exchange, rfl, buffer, -, used⟩ := waits.exchange rounds stop parsed
  rw [← buffer] at handed
  exact ⟨reply, result, exchange, handed, used.trans receiving.recvs⟩

end Message

/-! ## Services -/

/-- What answers a message, in a state that may change with it. -/
abbrev Service (τ : Type) := τ → Message → HttpStatus × List UInt8 × τ

/-- The responses to some messages, one after the other, and the state behind them. -/
def Service.run (service : Service τ) : τ → List Message → List (HttpStatus × List UInt8) × τ
  | state, [] => ([], state)
  | state, message :: messages =>
    let (status, body, next) := service state message
    let (responses, last) := run service next messages
    ((status, body) :: responses, last)

/-- Every message comes in a state in which it is `allowed`. -/
def Service.Allows (service : Service τ) (allowed : τ → Message → Prop) : τ → List Message → Prop
  | _, [] => True
  | state, message :: messages =>
    allowed state message ∧ Allows service allowed (service state message).2.2 messages

/-- A message of version 1.1 that the parser can be given. -/
def Regular (message : Message) : Prop :=
  message.Plain ∧ message.version = .http11 ∧ (serialise message).length < 2 ^ 31

/-- The callbacks do what the service does, on a state that `rel` relates to the one of the service. -/
def Implements (callback : Callback σ) (service : Service τ) (rel : σ → τ → Prop)
    (allowed : τ → Message → Prop) : Prop :=
  ∀ app state message buf req, rel app state → allowed state message → Regular message →
    Handed message buf req → ∃ app', rel app' (service state message).2.2 ∧
      callback app req buf = ((service state message).1, (service state message).2.1, app')

/-- The bytes of a response on a connection that is kept. -/
def keptText (response : HttpStatus × List UInt8) : List UInt8 :=
  responseText .http11 true response.1 response.2

/-- The memory behind the received bytes does not look like the end of a header block, whenever `recv`
blocks inside one of the messages. -/
def StopsClean (callback : Callback σ) (c : Connection) (io : Io σ) (messages : List Message) : Prop :=
  ∀ replies c' io' message, Session callback c io replies (some c', io') →
    messages[replies.length]? = some message → CleanStops callback c' io' message

/-- One message: the response is the one of the service, and the connection waits for the next one. -/
theorem Implements.exchange {service : Service τ} {rel : σ → τ → Prop} {allowed : τ → Message → Prop} {state : τ}
    {coming rest : List Recv} (implements : Implements callback service rel allowed)
    (regular : Regular message) (waits : Waits c io) (related : rel io.app state)
    (admitted : allowed state message) (brings : Brings message coming)
    (recvs : io.recvs = coming ++ rest) (clean : CleanStops callback c io message) :
    ∃ reply c' io', Exchange callback c io reply (some c', io') ∧ Waits c' io' ∧
      rel io'.app (service state message).2.2 ∧ io'.recvs = rest ∧
      io'.sent = io.sent ++ keptText ((service state message).1, (service state message).2.1) := by
  have ⟨plain, version, small⟩ := regular
  obtain ⟨reply, ⟨conn, io'⟩, exchange, handed, left⟩ :=
    exchange_handed plain small waits brings recvs clean
  -- the request makes the connection a kept one
  obtain ⟨complete, -⟩ := exchange.complete waits.idle.ready waits.granted waits.polite
  have kept : (c.keepAlive || reply.req.version == .http11) = true := by
    rw [handed.version, version]
    simp
  obtain ⟨c', rfl, -⟩ := complete.kept kept
  obtain ⟨app', related', answered⟩ := implements _ _ _ _ _ related admitted regular handed
  have same := exchange.app.symm.trans answered
  simp only [Prod.mk.injEq] at same
  obtain ⟨status, body, rfl⟩ := same
  refine ⟨reply, c', io', exchange, (exchange.waits waits).1, related', left, ?_⟩
  rw [complete.sent, kept, handed.version, version, status, body]
  rfl

/-- The rest of the messages, after some have been served. -/
theorem Implements.session {service : Service τ} {rel : σ → τ → Prop} {allowed : τ → Message → Prop} {state : τ}
    (implements : Implements callback service rel allowed) (served : List Message)
    {done : List (Reply σ)} (session : Session callback c io done (some c', io')) (waits : Waits c' io')
    (count : done.length = served.length) (pending : List (Message × List Recv))
    (regular : ∀ part ∈ pending, Regular part.1) (brings : ∀ part ∈ pending, Brings part.1 part.2)
    (recvs : io'.recvs = (pending.map (·.2)).flatten) (related : rel io'.app state)
    (allows : service.Allows allowed state (pending.map (·.1)))
    (clean : StopsClean callback c io (served ++ pending.map (·.1))) :
    ∃ replies c'' io'', Session callback c io (done ++ replies) (some c'', io'') ∧
      replies.length = pending.length ∧ Waits c'' io'' ∧
      rel io''.app (service.run state (pending.map (·.1))).2 ∧ io''.recvs = [] ∧
      io''.sent = io'.sent ++ ((service.run state (pending.map (·.1))).1.map keptText).flatten := by
  induction pending generalizing served done c' io' state with
  | nil =>
    refine ⟨[], c', io', ?_, rfl, waits, related, recvs, ?_⟩
    · rwa [List.append_nil]
    · simp [Service.run]
  | cons part pending ih =>
    obtain ⟨message, coming⟩ := part
    obtain ⟨admitted, allows⟩ := allows
    have here : CleanStops callback c' io' message := by
      apply clean done c' io' message session
      rw [count]
      simp
    obtain ⟨reply, c₁, io₁, exchange, waits₁, related₁, left, sent⟩ :=
      implements.exchange (regular _ List.mem_cons_self) waits related admitted
        (brings _ List.mem_cons_self) recvs here
    obtain ⟨replies, c₂, io₂, session₂, length, waits₂, related₂, used, sent₂⟩ :=
      ih (served ++ [message]) (session.next exchange) waits₁ (by simp [count])
        (fun part member => regular part (List.mem_cons_of_mem _ member))
        (fun part member => brings part (List.mem_cons_of_mem _ member)) left related₁ allows
        (by simpa using clean)
    refine ⟨reply :: replies, c₂, io₂, by simpa using session₂, by simp [length], waits₂, related₂,
      used, ?_⟩
    rw [sent₂, sent]
    simp [Service.run]

/-- Of the sessions that answer as many requests, there is one. -/
theorem Session.eq_of_length {replies replies' : List (Reply σ)} {result : Option Connection × Io σ}
    (session : Session callback c io replies (some c', io'))
    (stopped : ∀ reply result, ¬ Exchange callback c' io' reply result)
    (other : Session callback c io replies' result) (length : replies'.length = replies.length) :
    result = (some c', io') := by
  have last : ∀ after, ¬ Serves callback (replies, some c', io') after := by
    rintro after ⟨c'', io'', reply, same, exchange, -⟩
    cases same
    exact stopped reply after.2 exchange
  obtain same | ⟨after, ⟨-, -, reply, -, -, more⟩, rest⟩ :=
    (runs_to_stop serves_unique other.run session.run last).cases_head
  · exact congrArg Prod.snd same
  · -- one more answer would be too many
    have front := (replies_front rest).length_le
    rw [more, List.length_append, List.length_singleton] at front
    dsimp only at front
    omega

/-- Messages that arrive in one piece each do not stop inside of a header block. -/
theorem stopsClean_of_pieces (messages : List (Message × List Recv)) (waits : Waits c io)
    (regular : ∀ part ∈ messages, Regular part.1)
    (pieces : ∀ part ∈ messages, ∃ chunk, part.2 = [.data chunk, .again] ∧ chunk.bytes = serialise part.1)
    (recvs : io.recvs = (messages.map (·.2)).flatten) :
    StopsClean callback c io (messages.map (·.1)) := by
  -- a session of some replies is at the message of that number
  have place : ∀ replies result, Session callback c io replies result → ∀ c' io',
      result = (some c', io') → Waits c' io' ∧
      io'.recvs = ((messages.drop replies.length).map (·.2)).flatten := by
    intro replies result session
    induction session with
    | start =>
      intro c' io' same
      cases same
      exact ⟨waits, recvs⟩
    | @next c₁ io₁ replies reply result earlier exchange ih =>
      intro c' io' same
      subst same
      obtain ⟨waits₁, recvs₁⟩ := ih _ _ rfl
      refine ⟨(exchange.waits waits₁).1, ?_⟩
      cases left : messages.drop replies.length with
      | nil =>
        -- nothing arrives any more, and nothing can be answered
        have fewer := exchange.chunks waits₁.untouched
        rw [recvs₁, left] at fewer
        exact absurd fewer (Nat.not_lt_zero _)
      | cons part rest =>
        have member : part ∈ messages := List.mem_of_mem_drop (left ▸ List.mem_cons_self)
        obtain ⟨chunk, piece, bytes⟩ := pieces part member
        obtain ⟨plain, -, small⟩ := regular part member
        have recvs₂ : io₁.recvs = [.data chunk, .again] ++ (rest.map (·.2)).flatten := by
          rw [recvs₁, left, List.map_cons, List.flatten_cons, piece]
        have brings : Brings part.1 [.data chunk, .again] :=
          ⟨by simpa [received] using bytes, [], chunk, rfl, by simp⟩
        obtain ⟨reply', result', exchange', -, used⟩ := exchange_handed plain small waits₁ brings recvs₂
          (cleanStops_single recvs₂ (by rw [bytes]))
        obtain ⟨-, rfl⟩ := exchange.unique exchange'
        rw [List.length_append, List.length_singleton, ← List.drop_drop, left]
        exact used
  intro replies c' io' message session found
  obtain ⟨-, recvs'⟩ := place replies _ session c' io' rfl
  rw [List.getElem?_map, Option.map_eq_some_iff] at found
  obtain ⟨part, found, rfl⟩ := found
  obtain ⟨chunk, piece, bytes⟩ := pieces part (List.mem_of_getElem? found)
  obtain ⟨inside, here⟩ := List.getElem?_eq_some_iff.mp found
  rw [List.drop_eq_getElem_cons inside, here, List.map_cons, List.flatten_cons, piece] at recvs'
  exact cleanStops_single recvs' (by rw [bytes])

end Cask.Conn
