import Cask.Connection.Response

/-! # Responses without memory

`send_response` does not look at the results of its pushes.  A push whose `realloc` fails is
left out of the response, and the pushes behind it go on.
-/

namespace Cask.Conn

open Storage Http

/-! ## The pushes -/

/-- What `send_response` pushes, in order. -/
def pieces (version : HttpVersion) (keepAlive : Bool) (status : HttpStatus) (body : List UInt8) :
    List (List UInt8) :=
  statusLine version status :: ((if keepAlive then [connectionLine, keepAliveLine] else []) ++
    contentLengthLine body.length :: if body.length ≠ 0 then [body] else [])

theorem flatten_pieces (version : HttpVersion) (keepAlive : Bool) (status : HttpStatus)
    (body : List UInt8) :
    (pieces version keepAlive status body).flatten =
      responseText version keepAlive status body := by
  cases keepAlive <;> cases body <;> simp [pieces, responseText]

theorem ne_nil_of_mem_pieces {version : HttpVersion} {keepAlive : Bool} {status : HttpStatus}
    {body piece : List UInt8} (member : piece ∈ pieces version keepAlive status body) :
    piece ≠ [] := by
  have parts : piece = statusLine version status ∨ piece = connectionLine ∨ piece = keepAliveLine ∨
      piece = contentLengthLine body.length ∨ piece = body ∧ body.length ≠ 0 := by
    cases keepAlive <;> cases body <;> simp [pieces] at member ⊢ <;> tauto
  obtain rfl | rfl | rfl | rfl | ⟨rfl, nonempty⟩ := parts
  · simp [statusLine, crlf]
  · simp [connectionLine, crlf]
  · simp [keepAliveLine, crlf]
  · simp [contentLengthLine, crlf]
  · exact fun empty => nonempty (by rw [empty]; rfl)

theorem fillResponse_eq (version : HttpVersion) (keepAlive : Bool) (status : HttpStatus)
    (body : List UInt8) (out : Buffer × List (Option (List UInt8))) :
    fillResponse version keepAlive status body out =
      (pieces version keepAlive status body).foldl push (clearBuffer out.1, out.2) := by
  cases keepAlive <;> cases body <;> rfl

/-- The number of `realloc` calls when none fails: the pieces from the first one on that does not fit. -/
def reallocsNeeded (cap : Nat) : Nat → List (List UInt8) → Nat
  | _, [] => 0
  | size, piece :: rest =>
    if size + piece.length ≤ cap then reallocsNeeded cap (size + piece.length) rest else rest.length + 1

/-- A full buffer grows with every piece. -/
theorem reallocsNeeded_full {size : Nat} {rest : List (List UInt8)}
    (nonempty : ∀ piece ∈ rest, piece ≠ []) : reallocsNeeded size size rest = rest.length := by
  cases rest with
  | nil => rfl
  | cons piece rest =>
    have positive := List.length_pos_iff.mpr (nonempty piece (List.mem_cons_self ..))
    rw [reallocsNeeded, if_neg (by omega), List.length_cons]

/-! ## What is in the buffer in the end -/

variable (out : Buffer × List (Option (List UInt8))) (rest : List (List UInt8))

/-- One push: it has room, it makes room, or it is left out. -/
theorem push_cases (inside : Inside out.1) (bytes : List UInt8) :
    (out.1.size + bytes.length ≤ out.1.cap ∧ push out bytes = (appendBytes out.1 bytes, out.2)) ∨
    (out.1.cap < out.1.size + bytes.length ∧ ∃ fresh buf, out.2.headD (some []) = some fresh ∧
      push out bytes = (buf, out.2.tail) ∧ content buf = content out.1 ++ bytes ∧
      buf.cap = buf.size ∧ Inside buf) ∨
    (out.1.cap < out.1.size + bytes.length ∧ out.2.headD (some []) = none ∧
      push out bytes = (out.1, out.2.tail)) := by
  obtain full | fits := Nat.lt_or_ge out.1.cap (out.1.size + bytes.length)
  · cases outcome : out.2.headD (some []) with
    | some fresh =>
      obtain ⟨buf, pushed, appended, cap, inside'⟩ := pushBuffer_grows inside full outcome
      exact .inr (.inl ⟨full, fresh, buf, rfl, by rw [push, pushed], appended, cap, inside'⟩)
    | none => exact .inr (.inr ⟨full, rfl, by rw [push, pushBuffer_fails full outcome]⟩)
  · exact .inl ⟨fits, by rw [push, pushBuffer_fits fits]⟩

/-- The buffer only grows, at most by the pieces. -/
theorem foldl_push_bounds (inside : Inside out.1) :
    out.1.size ≤ (rest.foldl push out).1.size ∧
      (rest.foldl push out).1.size ≤ out.1.size + rest.flatten.length := by
  induction rest generalizing out with
  | nil => exact ⟨Nat.le_refl _, Nat.le_refl _⟩
  | cons piece rest ih =>
    simp only [List.foldl_cons, List.flatten_cons, List.length_append]
    obtain ⟨-, pushed⟩ | ⟨-, _, buf, -, pushed, appended, -, inside'⟩ | ⟨-, -, pushed⟩ :=
      push_cases out inside piece
    · have bounds := ih (appendBytes out.1 piece, out.2) (inside_appendBytes piece inside)
      rw [pushed]
      simp only [appendBytes] at bounds ⊢
      omega
    · have bounds := ih (buf, out.2.tail) inside'
      have size := size_of_content appended
      rw [pushed]
      dsimp only at bounds ⊢
      omega
    · have bounds := ih (out.1, out.2.tail) inside
      rw [pushed]
      dsimp only at bounds ⊢
      omega

/-- All pieces are in the buffer exactly when the calls of `realloc` that this takes go through. -/
theorem foldl_push_all (inside : Inside out.1) (nonempty : ∀ piece ∈ rest, piece ≠ []) :
    content (rest.foldl push out).1 = content out.1 ++ rest.flatten ↔
      Granted (out.2.take (reallocsNeeded out.1.cap out.1.size rest)) := by
  induction rest generalizing out with
  | nil => simp [reallocsNeeded, Granted]
  | cons piece rest ih =>
    have nonempty' : ∀ piece ∈ rest, piece ≠ [] :=
      fun later member => nonempty later (List.mem_cons_of_mem _ member)
    have positive := List.length_pos_iff.mpr (nonempty piece (List.mem_cons_self ..))
    rw [List.foldl_cons, List.flatten_cons, ← List.append_assoc, reallocsNeeded]
    obtain ⟨fits, pushed⟩ | ⟨full, fresh, buf, outcome, pushed, appended, cap, inside'⟩
      | ⟨full, outcome, pushed⟩ :=
      push_cases out inside piece
    · have later := ih (appendBytes out.1 piece, out.2) (inside_appendBytes piece inside) nonempty'
      rw [pushed, if_pos fits, ← content_appendBytes]
      exact later
    · have later := ih (buf, out.2.tail) inside' nonempty'
      rw [pushed, if_neg (by omega), ← appended]
      rw [cap, reallocsNeeded_full nonempty'] at later
      rw [later]
      obtain ⟨first, reallocs⟩ := out
      cases reallocs with
      | nil => simp
      | cons outcome' reallocs =>
        obtain rfl : outcome' = some fresh := outcome
        simp [Granted]
    · rw [pushed, if_neg (by omega)]
      obtain ⟨buf, reallocs⟩ := out
      cases reallocs with
      | nil => cases outcome
      | cons outcome' reallocs =>
        obtain rfl : outcome' = none := outcome
        refine iff_of_false (fun same => ?_) fun granted => granted none (by simp) rfl
        -- the piece that was left out is missed in the length
        have bounds := (foldl_push_bounds (buf, reallocs) rest inside).2
        have length := congrArg List.length same
        simp only [List.length_append, content_length, List.tail_cons] at length
        dsimp only at bounds
        omega

/-- Nothing is in the buffer exactly when no piece fits and every call of `realloc` fails. -/
theorem foldl_push_none (inside : Inside out.1) (empty : out.1.size = 0)
    (nonempty : ∀ piece ∈ rest, piece ≠ []) :
    content (rest.foldl push out).1 = [] ↔
      (∀ piece ∈ rest, out.1.cap < piece.length) ∧
      out.2.take rest.length = List.replicate rest.length none := by
  induction rest generalizing out with
  | nil => simp [content_eq_nil, empty]
  | cons piece rest ih =>
    have nonempty' : ∀ piece ∈ rest, piece ≠ [] :=
      fun later member => nonempty later (List.mem_cons_of_mem _ member)
    have positive := List.length_pos_iff.mpr (nonempty piece (List.mem_cons_self ..))
    rw [List.foldl_cons, content_eq_nil]
    obtain ⟨fits, pushed⟩ | ⟨full, fresh, buf, outcome, pushed, appended, cap, inside'⟩
      | ⟨full, outcome, pushed⟩ :=
      push_cases out inside piece
    · -- the piece fits: the buffer is not empty any more
      have grows :=
        (foldl_push_bounds (appendBytes out.1 piece, out.2) rest (inside_appendBytes piece inside)).1
      rw [pushed]
      refine iff_of_false (fun zero => ?_) fun ⟨small, _⟩ => ?_
      · simp only [appendBytes] at grows zero
        omega
      · have := small piece (List.mem_cons_self ..)
        omega
    · have grows := (foldl_push_bounds (buf, out.2.tail) rest inside').1
      have size := size_of_content appended
      rw [pushed]
      refine iff_of_false (fun zero => ?_) fun ⟨_, failed⟩ => ?_
      · dsimp only at grows
        omega
      · cases reallocs : out.2 with
        | nil => simp [reallocs, List.replicate_succ] at failed
        | cons outcome' reallocs' =>
          rw [reallocs] at outcome failed
          obtain rfl : outcome' = some fresh := outcome
          simp [List.replicate_succ] at failed
    · -- `realloc` failed: the piece is dropped
      have later := ih (out.1, out.2.tail) inside empty nonempty'
      rw [pushed, ← content_eq_nil, later]
      rw [empty, Nat.zero_add] at full
      cases reallocs : out.2 with
      | nil => simp [reallocs] at outcome
      | cons outcome' reallocs' =>
        rw [reallocs] at outcome
        obtain rfl : outcome' = none := outcome
        simp [full, List.replicate_succ]

/-! ## An empty response -/

variable {σ : Type} {callback : Callback σ} {c : Connection} {io : Io σ} {status : HttpStatus} {body : List UInt8}

/-- The connection is in the state `OUT` with nothing to send. -/
structure Blank (before : List UInt8) (keepAlive : Bool) (c : Connection) (io : Io σ) : Prop where
  state : c.state = .stateOut
  ready : Ready c io
  empty : c.buffer.size = 0
  cursor : c.writeBytes = 0
  sent : io.sent = before
  flag : c.keepAlive = keepAlive

/-- A `send` of no bytes ends the response. -/
theorem Blank.finish {before : List UInt8} {keepAlive : Bool} {c : Connection} {io : Io σ}
    (blank : Blank before keepAlive c io) (sends : List Send) :
    Complete [] before keepAlive (finishSend c
      { io with sends := sends, sent := io.sent ++ c.buffer.data.slice c.writeBytes 0 }) := by
  have same : io.sent ++ c.buffer.data.slice c.writeBytes 0 = before ++ [] := by
    rw [blank.sent]
    rfl
  rw [finishSend]
  split
  · next flag =>
    have ready : Ready c { io with sends := sends, sent := io.sent ++ c.buffer.data.slice c.writeBytes 0 } :=
      ⟨blank.ready.entry, blank.ready.granted⟩
    obtain ⟨c', io', began, idle, kept, flag', -⟩ := beginRead_ready ready
    rw [began]
    refine ⟨kept.sent.trans same, fun _ => ⟨c', rfl, idle, flag'.trans flag⟩, fun off => ?_⟩
    rw [← blank.flag, flag] at off
    cases off
  · next flag =>
    refine ⟨?_, fun on => absurd (blank.flag.trans on) flag, fun _ => rfl⟩
    rw [← same]
    unfold closeConnection delEvent
    split <;> rfl

theorem sendLoop_blank_nil {before : List UInt8} {keepAlive : Bool} {c : Connection} {io : Io σ}
    (blank : Blank before keepAlive c io) : Complete [] before keepAlive (sendLoop [] c io) := by
  have nothing : c.buffer.size - c.writeBytes = 0 := by rw [blank.empty, Nat.zero_sub]
  simp only [sendLoop, nothing, Nat.add_zero]
  exact blank.finish []

theorem sendLoop_blank {before : List UInt8} {keepAlive : Bool} {sends : List Send} {c : Connection}
    {io : Io σ} (blank : Blank before keepAlive c io) (polite : Polite sends) :
    (Complete [] before keepAlive (sendLoop sends c io)) ∨
      ∃ io', sendLoop sends c io = (some c, io') ∧ Blank before keepAlive c io' ∧
      Polite io'.sends := by
  cases sends with
  | nil => exact .inl (sendLoop_blank_nil blank)
  | cons outcome sends =>
    have polite' : Polite sends := fun next member => polite next (List.mem_cons_of_mem _ member)
    cases outcome with
    | again =>
      refine .inr ⟨{ io with sends := sends }, rfl, ?_, polite'⟩
      exact ⟨blank.state, ⟨blank.ready.entry, blank.ready.granted⟩, blank.empty, blank.cursor,
        blank.sent, blank.flag⟩
    | error => exact absurd rfl (polite .error (List.mem_cons_self ..))
    | accept room =>
      have nothing : min (room + 1) (if c.buffer.size - c.writeBytes < writeChunk then c.buffer.size - c.writeBytes
          else writeChunk) = 0 := by
        rw [blank.empty, blank.cursor]
        rfl
      left
      simp only [sendLoop, nothing, Nat.add_zero]
      rw [if_pos (blank.cursor.trans blank.empty.symm)]
      exact blank.finish sends

theorem sendResponse_blank (ready : Ready c io)
    (empty : content (fillResponse c.req.version c.keepAlive status body (c.buffer, io.reallocs)).1 = []) :
    ∃ c' io', sendResponse c io status body = sendLoop io.sends c' io' ∧
      Blank io.sent c.keepAlive c' io' := by
  obtain ⟨c', io', began, state, cursor, ready', sent, flag, buffer⟩ := sendResponse_ready ready
  refine ⟨c', io', began, state, ready', ?_, cursor, sent, flag⟩
  rw [buffer]
  exact content_eq_nil.mp empty

theorem Responding.blank {result : Option Connection × Io σ} (ready : Ready c io)
    (polite : Polite io.sends)
    (empty : content (fillResponse c.req.version c.keepAlive status body
      (c.buffer, io.reallocs)).1 = [])
    (run : Responding callback c io status body result) :
    Complete [] io.sent c.keepAlive result ∨
      ∃ c' io', result = (some c', io') ∧ Blank io.sent c.keepAlive c' io' ∧ Polite io'.sends := by
  induction run with
  | start =>
    obtain ⟨c', io', began, blank⟩ := sendResponse_blank ready empty
    rw [began]
    exact (sendLoop_blank blank polite).imp_right fun ⟨io'', left, rest⟩ => ⟨c', io'', left, rest⟩
  | resume _ out writable ended ih =>
    rw [ioCallback_out _ out writable] at ended
    cases ended
    obtain complete | ⟨c', io', same, blank, polite'⟩ := ih
    · exact absurd out complete.not_out
    · cases same
      exact (sendLoop_blank blank polite').imp_right fun ⟨io'', left, rest⟩ => ⟨_, io'', left, rest⟩

/-! ## What is offered to the client -/

/-- However the socket takes it, the client gets the whole response, or nothing and the connection
is closed. -/
def NotTruncated (callback : Callback σ) (c : Connection) (io : Io σ) (status : HttpStatus)
    (body : List UInt8) : Prop :=
  ∀ sends, Polite sends → ∀ result, Responding callback c { io with sends := sends } status body result → Over result →
    result.2.sent = io.sent ++ responseText c.req.version c.keepAlive status body ∨
      (result.2.sent = io.sent ∧ result.1 = none)

theorem polite_nil : Polite [] := fun _ member => nomatch member

/-- The client gets what is in the buffer. -/
theorem notTruncated_of_nonempty {text : List UInt8} (ready : Ready c io) (nonempty : text ≠ [])
    (filled : content (fillResponse c.req.version c.keepAlive status body (c.buffer, io.reallocs)).1 = text) :
    NotTruncated callback c io status body ↔
      text = responseText c.req.version c.keepAlive status body := by
  have starts : ∀ sends, Starts text c { io with sends := sends } status body := fun sends =>
    sendResponse_starts ⟨ready.entry, ready.granted⟩ nonempty filled
  constructor
  · intro property
    have completes : ∃ result, Responding callback c { io with sends := [] } status body result ∧
        Complete text io.sent c.keepAlive result := (starts []).completes polite_nil
    obtain ⟨result, run, complete⟩ := completes
    obtain whole | ⟨none_sent, -⟩ := property [] polite_nil result run complete.over
    · exact List.append_cancel_left (complete.sent.symm.trans whole)
    · have appended : io.sent ++ text = io.sent := complete.sent.symm.trans none_sent
      exact absurd (List.append_right_eq_self.mp appended) nonempty
  · rintro rfl sends polite result run finished
    exact .inl ((run.exact (starts sends) polite).complete finished).sent

theorem notTruncated_of_empty (ready : Ready c io)
    (empty : content (fillResponse c.req.version c.keepAlive status body (c.buffer, io.reallocs)).1 = []) :
    NotTruncated callback c io status body ↔ c.keepAlive = false := by
  have ready' : ∀ sends, Ready c { io with sends := sends } := fun _ => ⟨ready.entry, ready.granted⟩
  constructor
  · intro property
    -- a `send` of no bytes succeeds, and a keep-alive connection goes on without an answer
    obtain ⟨c', io', began, blank⟩ := sendResponse_blank (ready' []) empty
    have complete := sendLoop_blank_nil blank
    have run : Responding callback c { io with sends := [] } status body (sendLoop [] c' io') := by
      rw [← began]
      exact .start
    obtain whole | ⟨-, closed⟩ := property [] polite_nil _ run complete.over
    · have appended := List.append_cancel_left (complete.sent.symm.trans whole)
      exact absurd appended.symm (responseText_ne_nil _ _ _ _)
    · by_contra flag
      obtain ⟨c'', stays, -⟩ := complete.kept (by simpa using flag)
      rw [closed] at stays
      cases stays
  · intro flag sends polite result run finished
    obtain complete | ⟨c', io', rfl, blank, -⟩ := run.blank (ready' sends) polite empty
    · exact .inr ⟨complete.sent.trans (List.append_nil _), complete.closed flag⟩
    · exact absurd blank.state (finished c' rfl)

/-- Nothing but whole responses reach the client exactly when every `realloc` that the response
takes goes through, or every one fails with nothing in the buffer and no keep-alive. -/
theorem notTruncated_iff (ready : Ready c io) :
    NotTruncated callback c io status body ↔
      Granted (io.reallocs.take (reallocsNeeded c.buffer.cap 0
      (pieces c.req.version c.keepAlive status body))) ∨
      (c.keepAlive = false ∧ (∀ piece ∈ pieces c.req.version c.keepAlive status body, c.buffer.cap <
      piece.length) ∧
        io.reallocs.take (pieces c.req.version c.keepAlive status body).length =
          List.replicate (pieces c.req.version c.keepAlive status body).length none) := by
  have nonempty : ∀ piece ∈ pieces c.req.version c.keepAlive status body, piece ≠ [] :=
    fun _ => ne_nil_of_mem_pieces
  have all := foldl_push_all (clearBuffer c.buffer, io.reallocs) _ (inside_clearBuffer _) nonempty
  have nothing :=
    foldl_push_none (clearBuffer c.buffer, io.reallocs) _ (inside_clearBuffer _) rfl nonempty
  have fill := fillResponse_eq c.req.version c.keepAlive status body (c.buffer, io.reallocs)
  dsimp only at all nothing fill
  rw [← fill, content_clearBuffer, List.nil_append, flatten_pieces] at all
  rw [← fill] at nothing
  change _ ↔ Granted (io.reallocs.take (reallocsNeeded c.buffer.cap 0 _)) at all
  change _ ↔ (∀ piece ∈ _, c.buffer.cap < _) ∧ _ at nothing
  rw [← all, ← nothing]
  by_cases empty : content (fillResponse c.req.version c.keepAlive status body (c.buffer, io.reallocs)).1 = []
  · have not_all : [] ≠ responseText c.req.version c.keepAlive status body :=
      (responseText_ne_nil _ _ _ _).symm
    rw [notTruncated_of_empty ready empty]
    simp only [empty, not_all, false_or, and_true]
  · rw [notTruncated_of_nonempty ready empty rfl]
    simp only [empty, and_false, or_false]

/-- The answers of the allocator during one response; everything else is quiet. -/
def outcomes (reallocs : List (Option (List UInt8))) : Io Unit :=
  ⟨[], [], reallocs, [], some .epollin, [], [], ()⟩

theorem ready_outcomes (reallocs : List (Option (List UInt8))) : Ready served (outcomes reallocs) :=
  ⟨rfl, fun _ member => nomatch member⟩

/-- All three pushes of a response with a body grow the buffer. -/
theorem notTruncated_iff_granted :
    NotTruncated (fun app _ _ => (.status404, [], app)) served
      (outcomes [some [], some [], some []]) .status200 [104, 105] := by
  refine (notTruncated_iff (ready_outcomes _)).mpr (.inl ?_)
  unfold Granted
  decide

/-- The `realloc` for the body fails: the client is told to wait for two bytes that never come. -/
theorem not_notTruncated_body :
    ¬ ∀ reallocs, NotTruncated (fun app _ _ => (.status404, [], app)) served
      (outcomes reallocs) .status200 [104, 105] := by
  intro always
  have filled : content (fillResponse .http10 false .status200 [104, 105] (served.buffer, [some [], some [], none])).1 =
      statusLine .http10 .status200 ++ contentLengthLine 2 := by
    decide
  have nonempty : statusLine .http10 .status200 ++ contentLengthLine 2 ≠ [] := by decide
  have whole :=
    (notTruncated_of_nonempty (ready_outcomes _) nonempty filled).mp (always [some [], some [], none])
  exact absurd whole (by decide)

end Cask.Conn
