import Cask.Connection.Session
import Cask.Http.Again

/-! # A silent peer

`read_data` asks `recv` again when `parse_request` wants more bytes, also when `recv` has just
reported that there are none.  A second look at the same bytes gives the same answer, so a
peer that stops inside a request keeps the worker in this loop.
-/

namespace Cask.Conn

open Storage Http Fuel

variable {σ : Type} {callback : Callback σ} {c : Connection} {io : Io σ}

/-! ## Filling the buffer -/

/-- The buffer with the chunks received, and with room for another one; `none` when the memory for
this is not to be had. -/
def receiveAll : List Chunk → List (Option (List UInt8)) → Buffer → Option Buffer
  | [], reallocs, buf =>
    match reserve reallocs buf with
    | (.err, _, _) => none
    | (.ok, buf, _) => some buf
  | chunk :: rest, reallocs, buf =>
    match reserve reallocs buf with
    | (.err, _, _) => none
    | (.ok, buf, reallocs) => receiveAll rest reallocs (appendBytes buf chunk.bytes)

/-- Reserved room stays reserved. -/
theorem reserve_again {reallocs reallocs' : List (Option (List UInt8))} {buf buf' : Buffer}
    (reserved : reserve reallocs buf = (.ok, buf', reallocs')) (more : List (Option (List UInt8))) :
    reserve more buf' = (.ok, buf', more) := by
  have room : buf'.size + readChunk ≤ buf'.cap := by
    unfold reserve at reserved
    split at reserved
    · unfold resizeBuffer at reserved
      split at reserved
      · next zero => exact absurd zero (by simp [readChunk])
      · split at reserved
        · cases reserved
        · cases reserved
          dsimp only
          omega
    · next room =>
      cases reserved
      omega
  rw [reserve, if_neg (by omega)]

/-! ## Rounds -/

/-- The worker is caught: no bytes, room for more, and a parser that waits for them. -/
def Spinning (cur : Connection × Io σ) : Prop :=
  cur.2.recvs = [] ∧ reserve cur.2.reallocs cur.1.buffer = (.ok, cur.1.buffer, cur.2.reallocs) ∧
    parseRequest cur.1.req cur.1.buffer = (.uf, cur.1.req)

theorem Spinning.again (cur : Connection × Io σ) (spinning : Spinning cur) :
    ∃ next, readRound callback cur = .ok (.again next) ∧ Spinning next := by
  obtain ⟨c, io⟩ := cur
  obtain ⟨silent, room, wants⟩ := spinning
  refine ⟨(c, io), ?_, silent, room, wants⟩
  obtain ⟨recvs, sends, reallocs, ctls, interest, sent, timer, app⟩ := io
  obtain rfl : recvs = [] := silent
  dsimp only at wants
  rw [readRound_ok room]
  simp only [receive, onBlocked, wants]

/-- `recv` has nothing, and room is reserved: the verdict of the parser decides. -/
theorem returns_of_silent {buf : Buffer} {reallocs : List (Option (List UInt8))}
    (silent : io.recvs = []) (reserved : reserve io.reallocs c.buffer = (.ok, buf, reallocs)) :
    (∃ result, Returns (loop .spent (readRound callback) · (c, io)) result) ↔
      (parseRequest c.req buf).1 = .ok ∨ (parseRequest c.req buf).1 = .err := by
  have round : readRound callback (c, io) =
      onBlocked callback { c with buffer := buf } { io with reallocs := reallocs } := by
    rw [readRound_ok reserved, receive, silent]
  cases parsed : parseRequest c.req buf with
  | mk code req =>
    rw [onBlocked] at round
    dsimp only at round
    rw [parsed] at round
    cases code with
    | ok => exact iff_of_true ⟨_, .loop_done round⟩ (.inl rfl)
    | err => exact iff_of_true ⟨_, .loop_done round⟩ (.inr rfl)
    | uf =>
      refine iff_of_false ?_ (by simp)
      rintro ⟨result, ended⟩
      have spinning : Spinning ({ c with buffer := buf, req := req }, { io with reallocs := reallocs }) :=
        ⟨silent, reserve_again reserved reallocs, parseRequest_again parsed⟩
      exact not_returns_of_stays Spinning Spinning.again spinning (ended.after_again round)
    | trap =>
      refine iff_of_false ?_ (by simp)
      rintro ⟨result, ended⟩
      exact not_returns_of_error round ended

theorem returns_iff (chunks : List Chunk) (silent : io.recvs = chunks.map .data) :
    (∃ result, Returns (loop .spent (readRound callback) · (c, io)) result) ↔
      ∀ buf, receiveAll chunks io.reallocs c.buffer = some buf →
        (parseRequest c.req buf).1 = .ok ∨ (parseRequest c.req buf).1 = .err := by
  induction chunks generalizing c io with
  | nil =>
    cases reserved : reserve io.reallocs c.buffer with
    | mk status rest =>
      obtain ⟨buf, reallocs⟩ := rest
      rw [receiveAll, reserved]
      cases status with
      | ok => simpa using returns_of_silent silent reserved
      | err => exact iff_of_true ⟨_, .loop_done (readRound_err reserved)⟩ (by simp)
  | cons chunk chunks ih =>
    cases reserved : reserve io.reallocs c.buffer with
    | mk status rest =>
      obtain ⟨buf, reallocs⟩ := rest
      rw [receiveAll, reserved]
      cases status with
      | ok =>
        -- a chunk is taken in, and the loop goes round
        have round : readRound callback (c, io) = .ok (.again ({ c with buffer := appendBytes buf chunk.bytes },
            { io with reallocs := reallocs, recvs := chunks.map .data })) := by
          rw [readRound_ok reserved, receive, silent]
          rfl
        have later := @ih { c with buffer := appendBytes buf chunk.bytes }
          { io with reallocs := reallocs, recvs := chunks.map .data } rfl
        dsimp only at later ⊢
        rw [← later]
        constructor
        · rintro ⟨result, ended⟩
          exact ⟨result, ended.after_again round⟩
        · rintro ⟨result, ended⟩
          exact ⟨result, .loop_again round ended⟩
      | err => exact iff_of_true ⟨_, .loop_done (readRound_err reserved)⟩ (by simp)

/-- When the peer goes silent after some chunks, `read_data` comes back exactly when the memory
for them is not to be had, or the bytes that are there complete a request or spoil it. -/
theorem readData_returns_iff (chunks : List Chunk) (silent : io.recvs = chunks.map .data) :
    (∃ result, Returns (readData callback · c io) result) ↔
      ∀ buf, receiveAll chunks io.reallocs c.buffer = some buf →
        (parseRequest c.req buf).1 = .ok ∨ (parseRequest c.req buf).1 = .err :=
  returns_iff chunks silent

/-- A connection that waits for its first request. -/
def accepted : Connection := ⟨.stateIn, true, false, emptyBuffer, 0, zeroed⟩

/-- A peer that has sent `chunk` and nothing more. -/
def silentAfter (chunk : Chunk) : Io Unit := ⟨[.data chunk], [], [], [], some .epollin, [], [], ()⟩

/-- An empty line, which is no request. -/
def emptyLine : Chunk := ⟨[13, 10], by decide, by decide⟩

/-- The beginning of a request. -/
def oneLetter : Chunk := ⟨[71], by decide, by decide⟩

/-- The buffer of a fresh connection that has received `chunk`. -/
def bufferAfter (chunk : Chunk) : Buffer := (receiveAll [chunk] [] emptyBuffer).getD emptyBuffer

/-- After an empty line the connection is closed. -/
theorem readData_returns_iff_empty_line :
    ∃ result, Returns (readData (fun app _ _ => (.status404, [], app)) · accepted
      (silentAfter emptyLine)) result := by
  refine (readData_returns_iff [emptyLine] rfl).mpr ?_
  intro buf received
  have same : bufferAfter emptyLine = buf := congrArg (Option.getD · emptyBuffer) received
  have verdict : (parseRequest zeroed (bufferAfter emptyLine)).1 = .err := by decide +kernel
  rw [same] at verdict
  exact .inr verdict

/-- After the first letter of a request the loop does not end. -/
theorem not_readData_returns_one_letter :
    ¬ ∀ (c : Connection) (io : Io Unit) (chunks : List Chunk), io.recvs = chunks.map .data →
      ∃ result, Returns (readData (fun app _ _ => (.status404, [], app)) · c io) result := by
  intro always
  have room : (receiveAll [oneLetter] [] emptyBuffer).isSome := by decide +kernel
  obtain ⟨buf, received⟩ := Option.isSome_iff_exists.mp room
  have same : bufferAfter oneLetter = buf := congrArg (Option.getD · emptyBuffer) received
  have wants : (parseRequest zeroed (bufferAfter oneLetter)).1 = .uf := by decide +kernel
  rw [same] at wants
  have verdict :=
    (returns_iff [oneLetter] rfl).mp (always accepted (silentAfter oneLetter) [oneLetter] rfl) buf received
  change (parseRequest zeroed buf).1 = .ok ∨ (parseRequest zeroed buf).1 = .err at verdict
  rw [wants] at verdict
  revert verdict
  decide

end Cask.Conn
