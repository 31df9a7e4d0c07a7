import Cask.Common
import Cask.Http.Model

/-! # Buffers

`buffer.c`: the growing byte buffer of a connection, which receives the request and then
holds the response.  The outcomes of `realloc` are given as a list, one for each call; an
outcome is `none` for a failure, and otherwise holds what the memory behind the kept bytes
contains.  The size of `Buffer.data` is the size of the block the data pointer points to.
-/

namespace Cask.Conn

open Storage Http

/-! ## Operations -/

/-- A block of `size` bytes that starts with the bytes of `data`, as far as these fit. -/
def moved (data : Image) (size : Nat) (fresh : List UInt8) : Image where
  size := size
  byte i :=
    if i < size then if i < data.size then data.byte i else fresh.getD (i - data.size) 0 else 0
  zero_past_end _ past := if_neg (Nat.not_lt.mpr past)

/-- The buffer of `create_buffer`. -/
def emptyBuffer : Buffer := ⟨0, 0, Image.empty⟩

def clearBuffer (buf : Buffer) : Buffer := { buf with size := 0 }

/-- `resize_buffer(buf, size)`.  The calls of `realloc` behind the end of the list succeed. -/
def resizeBuffer (reallocs : List (Option (List UInt8))) (buf : Buffer) (size : Nat) :
    Status × Buffer × List (Option (List UInt8)) :=
  if size = 0 then (.ok, { buf with size := 0, data := Image.empty }, reallocs)
  else
    match reallocs.headD (some []) with
    | none => (.err, buf, reallocs.tail)
    | some fresh => (.ok, ⟨min buf.size size, size, moved buf.data size fresh⟩, reallocs.tail)

/-- `memcpy` behind the content, in a block that has room for `bytes`. -/
def appendBytes (buf : Buffer) (bytes : List UInt8) : Buffer :=
  { buf with size := buf.size + bytes.length, data := buf.data.write buf.size bytes }

/-- `push_buffer(buf, data, size)` -/
def pushBuffer (reallocs : List (Option (List UInt8))) (buf : Buffer) (bytes : List UInt8) :
    Status × Buffer × List (Option (List UInt8)) :=
  if buf.size + bytes.length > buf.cap then
    match resizeBuffer reallocs buf (buf.size + bytes.length) with
    | (.err, buf, reallocs) => (.err, buf, reallocs)
    | (.ok, buf, reallocs) => (.ok, appendBytes buf bytes, reallocs)
  else (.ok, appendBytes buf bytes, reallocs)

/-! ## Content -/

/-- The bytes of the buffer. -/
def content (buf : Buffer) : List UInt8 := buf.data.slice 0 buf.size

@[simp] theorem content_length (buf : Buffer) : (content buf).length = buf.size :=
  Image.slice_length ..

theorem size_of_content {buf buf' : Buffer} {bytes : List UInt8}
    (appended : content buf' = content buf ++ bytes) : buf'.size = buf.size + bytes.length := by
  rw [← content_length buf', appended, List.length_append, content_length]

@[simp] theorem content_clearBuffer (buf : Buffer) : content (clearBuffer buf) = [] := rfl

theorem content_eq_nil {buf : Buffer} : content buf = [] ↔ buf.size = 0 := by
  rw [← List.length_eq_zero_iff, content_length]

theorem content_appendBytes (buf : Buffer) (bytes : List UInt8) :
    content (appendBytes buf bytes) = content buf ++ bytes := by
  have front : (buf.data.write buf.size bytes).slice 0 buf.size = buf.data.slice 0 buf.size := by
    apply Image.slice_congr
    intro i _ upper
    exact Image.write_byte_outside (.inl (by omega))
  have back : (buf.data.write buf.size bytes).slice buf.size bytes.length = bytes :=
    Image.holds_write.slice
  simp only [content, appendBytes, Image.slice_add, Nat.zero_add, front, back]

/-- A move keeps the content if the new block has room for it. -/
theorem slice_moved {data : Image} {size len : Nat} {fresh : List UInt8} (room : len ≤ size)
    (inside : len ≤ data.size) : (moved data size fresh).slice 0 len = data.slice 0 len := by
  apply Image.slice_congr
  intro i _ upper
  simp only [moved]
  rw [if_pos (by omega), if_pos (by omega)]

/-- The content lies inside the block. -/
def Inside (buf : Buffer) : Prop := buf.size ≤ buf.data.size

theorem inside_clearBuffer (buf : Buffer) : Inside (clearBuffer buf) := Nat.zero_le _

theorem inside_appendBytes {buf : Buffer} (bytes : List UInt8) (inside : Inside buf) :
    Inside (appendBytes buf bytes) := by
  by_cases empty : bytes = []
  · subst empty
    have same : appendBytes buf [] = buf := by simp [appendBytes, Image.write_nil]
    rw [same]
    exact inside
  · simp only [Inside, appendBytes, Image.write_size empty]
    omega

/-! ## Results of the operations -/

theorem resizeBuffer_granted {reallocs : List (Option (List UInt8))} {fresh : List UInt8}
    {buf : Buffer} {size : Nat} (positive : 0 < size)
    (outcome : reallocs.headD (some []) = some fresh) :
    resizeBuffer reallocs buf size =
      (.ok, ⟨min buf.size size, size, moved buf.data size fresh⟩, reallocs.tail) := by
  rw [resizeBuffer, if_neg (by omega), outcome]

/-- A growing `resize_buffer` that goes through keeps the content. -/
theorem resizeBuffer_some {reallocs : List (Option (List UInt8))} {fresh : List UInt8}
    {buf : Buffer} (size : Nat) (inside : Inside buf) (grows : buf.size ≤ size)
    (positive : 0 < size) (outcome : reallocs.headD (some []) = some fresh) :
    ∃ buf', resizeBuffer reallocs buf size = (.ok, buf', reallocs.tail) ∧
      content buf' = content buf ∧
      buf'.size = buf.size ∧ buf'.cap = size ∧ buf'.data.size = size := by
  refine ⟨_, resizeBuffer_granted positive outcome, ?_, ?_, rfl, rfl⟩
  · simp only [content, Nat.min_eq_left grows]
    exact slice_moved grows inside
  · exact Nat.min_eq_left grows

theorem resizeBuffer_none {reallocs : List (Option (List UInt8))} {buf : Buffer} {size : Nat}
    (positive : 0 < size) (outcome : reallocs.headD (some []) = none) :
    resizeBuffer reallocs buf size = (.err, buf, reallocs.tail) := by
  rw [resizeBuffer, if_neg (by omega), outcome]

/-- A push that has room does not allocate. -/
theorem pushBuffer_fits {reallocs : List (Option (List UInt8))} {buf : Buffer} {bytes : List UInt8}
    (fits : buf.size + bytes.length ≤ buf.cap) :
    pushBuffer reallocs buf bytes = (.ok, appendBytes buf bytes, reallocs) := by
  rw [pushBuffer, if_neg (by omega)]

/-- A push that has to grow the buffer leaves no room behind. -/
theorem pushBuffer_grows {reallocs : List (Option (List UInt8))} {fresh : List UInt8} {buf : Buffer}
    {bytes : List UInt8} (inside : Inside buf) (full : buf.cap < buf.size + bytes.length)
    (outcome : reallocs.headD (some []) = some fresh) :
    ∃ buf', pushBuffer reallocs buf bytes = (.ok, buf', reallocs.tail) ∧
      content buf' = content buf ++ bytes ∧
      buf'.cap = buf'.size ∧ Inside buf' := by
  obtain ⟨grown, resized, kept, size, cap, block⟩ :=
    resizeBuffer_some (buf.size + bytes.length) inside (Nat.le_add_right ..) (by omega) outcome
  refine ⟨appendBytes grown bytes, ?_, ?_, ?_, ?_⟩
  · rw [pushBuffer, if_pos full, resized]
  · rw [content_appendBytes, kept]
  · simp only [appendBytes, cap, size]
  · apply inside_appendBytes
    rw [Inside, size, block]
    exact Nat.le_add_right ..

theorem pushBuffer_fails {reallocs : List (Option (List UInt8))} {buf : Buffer} {bytes : List UInt8}
    (full : buf.cap < buf.size + bytes.length) (outcome : reallocs.headD (some []) = none) :
    pushBuffer reallocs buf bytes = (.err, buf, reallocs.tail) := by
  rw [pushBuffer, if_pos full, resizeBuffer_none (by omega) outcome]

/-! ## Runs

The sizes are natural numbers: `size_t` does not wrap around for sizes that fit the memory.
-/

/-- The block has room for the capacity, and the capacity for the content.  The block behind a
`NULL` data pointer has no bytes, so that the capacity is then 0. -/
structure Valid (buf : Buffer) : Prop where
  size_le_cap : buf.size ≤ buf.cap
  cap_le_block : buf.cap ≤ buf.data.size

/-- What can be done to a buffer. -/
inductive BufferOp where
  | push (bytes : List UInt8)
  | resize (size : Nat)
  | clear
  deriving DecidableEq, Repr

/-- `push_buffer` copies past the block: the capacity has room for the bytes and the block has not.
A push that allocates has a block of the right size. -/
def Overruns (buf : Buffer) (bytes : List UInt8) : Prop :=
  buf.size + bytes.length ≤ buf.cap ∧ buf.data.size < buf.size + bytes.length

instance (buf : Buffer) (bytes : List UInt8) : Decidable (Overruns buf bytes) :=
  inferInstanceAs (Decidable (_ ∧ _))

/-- The return code and the buffer after the operation; `none` if it copies past the block. -/
def BufferOp.run (reallocs : List (Option (List UInt8))) (buf : Buffer) : BufferOp → Option (Status × Buffer)
  | .push bytes =>
    if Overruns buf bytes then none
    else some ((pushBuffer reallocs buf bytes).1, (pushBuffer reallocs buf bytes).2.1)
  | .resize size => some ((resizeBuffer reallocs buf size).1, (resizeBuffer reallocs buf size).2.1)
  | .clear => some (.ok, clearBuffer buf)

/-- What the operation is for, on the content. -/
def BufferOp.onContent : BufferOp → List UInt8 → List UInt8
  | .push bytes, kept => kept ++ bytes
  | .resize size, kept => kept.take size
  | .clear, _ => []

/-- The operation keeps the representation valid, does to the content what it is for, and does
nothing at all when it fails. -/
structure Does (op : BufferOp) (buf : Buffer) (status : Status) (buf' : Buffer) : Prop where
  valid : Valid buf'
  onContent : status = .ok → content buf' = op.onContent (content buf)
  failed : status = .err → buf'.size = buf.size ∧ buf'.cap = buf.cap ∧ content buf' = content buf

/-- The operation stays inside the block and does what it should. -/
def Works (reallocs : List (Option (List UInt8))) (buf : Buffer) (op : BufferOp) : Prop :=
  ∃ status buf', op.run reallocs buf = some (status, buf') ∧ Does op buf status buf'

/-- The buffers that operations allowed by `allowed` make of the one of `create_buffer`. -/
inductive BufferRun (allowed : Buffer → BufferOp → Prop) : Buffer → Prop where
  | create : BufferRun allowed emptyBuffer
  | step {buf buf' : Buffer} {status : Status} (run : BufferRun allowed buf) (op : BufferOp)
      (reallocs : List (Option (List UInt8))) (meets : allowed buf op)
      (ran : op.run reallocs buf = some (status, buf')) : BufferRun allowed buf'

section Runs

variable {buf : Buffer} {reallocs : List (Option (List UInt8))}

theorem Valid.inside (valid : Valid buf) : Inside buf :=
  Nat.le_trans valid.size_le_cap valid.cap_le_block

theorem valid_emptyBuffer : Valid emptyBuffer := ⟨Nat.le_refl _, Nat.le_refl _⟩

theorem Valid.clear (valid : Valid buf) : Valid (clearBuffer buf) := ⟨Nat.zero_le _, valid.cap_le_block⟩

theorem Valid.append {bytes : List UInt8} (valid : Valid buf)
    (fits : buf.size + bytes.length ≤ buf.cap) : Valid (appendBytes buf bytes) where
  size_le_cap := fits
  cap_le_block := by
    simp only [appendBytes]
    rw [Image.write_size_inside (Nat.le_trans fits valid.cap_le_block)]
    exact valid.cap_le_block

/-- A shrinking block keeps the bytes that fit. -/
theorem content_moved (inside : Inside buf) (size : Nat) (fresh : List UInt8) :
    content ⟨min buf.size size, size, moved buf.data size fresh⟩ = (content buf).take size := by
  have kept : (moved buf.data size fresh).slice 0 (min buf.size size) =
      buf.data.slice 0 (min buf.size size) :=
    slice_moved (Nat.min_le_right ..) (Nat.le_trans (Nat.min_le_left ..) inside)
  rw [content, kept]
  simp [content, Image.slice, ← List.map_take, List.take_range, Nat.min_comm]

/-- An operation that fails and leaves the buffer alone. -/
theorem works_failed {op : BufferOp} (valid : Valid buf) (result : op.run reallocs buf = some (.err, buf)) :
    Works reallocs buf op :=
  ⟨.err, buf, result, valid, nofun, fun _ => ⟨rfl, rfl, rfl⟩⟩

theorem works_ok {op : BufferOp} {buf' : Buffer} (result : op.run reallocs buf = some (.ok, buf'))
    (valid : Valid buf') (kept : content buf' = op.onContent (content buf)) : Works reallocs buf op :=
  ⟨.ok, buf', result, valid, fun _ => kept, nofun⟩

/-- In a valid buffer what fits the capacity fits the block. -/
theorem Valid.not_overruns (valid : Valid buf) (bytes : List UInt8) : ¬ Overruns buf bytes := by
  rintro ⟨fits, short⟩
  have block := valid.cap_le_block
  omega

theorem works_resize (valid : Valid buf) {size : Nat} (keeps : size = 0 → buf.cap = 0) :
    Works reallocs buf (.resize size) := by
  by_cases zero : size = 0
  · -- the block is freed, and there was no capacity to take back
    subst zero
    have result : BufferOp.run reallocs buf (.resize 0) =
        some (.ok, { buf with size := 0, data := Image.empty }) := by
      simp [BufferOp.run, resizeBuffer]
    refine works_ok result ⟨Nat.zero_le _, by simp [keeps rfl]⟩ ?_
    simp [BufferOp.onContent, content_eq_nil]
  · cases outcome : reallocs.headD (some []) with
    | none =>
      refine works_failed valid ?_
      simp [BufferOp.run, resizeBuffer_none (by omega : 0 < size) outcome]
    | some fresh =>
      have result : BufferOp.run reallocs buf (.resize size) =
          some (.ok, ⟨min buf.size size, size, moved buf.data size fresh⟩) := by
        simp [BufferOp.run, resizeBuffer_granted (by omega : 0 < size) outcome]
      exact works_ok result ⟨Nat.min_le_right .., Nat.le_refl _⟩ (content_moved valid.inside size fresh)

theorem works_push (valid : Valid buf) (bytes : List UInt8) : Works reallocs buf (.push bytes) := by
  have inBlock := valid.not_overruns bytes
  by_cases fits : buf.size + bytes.length ≤ buf.cap
  · have result : BufferOp.run reallocs buf (.push bytes) = some (.ok, appendBytes buf bytes) := by
      simp [BufferOp.run, inBlock, pushBuffer_fits fits]
    exact works_ok result (valid.append fits) (content_appendBytes buf bytes)
  · have full : buf.cap < buf.size + bytes.length := by omega
    cases outcome : reallocs.headD (some []) with
    | none =>
      refine works_failed valid ?_
      simp [BufferOp.run, inBlock, pushBuffer_fails full outcome]
    | some fresh =>
      obtain ⟨buf', pushed, kept, noRoom, inside⟩ := pushBuffer_grows valid.inside full outcome
      have result : BufferOp.run reallocs buf (.push bytes) = some (.ok, buf') := by
        simp [BufferOp.run, inBlock, pushed]
      -- the block was made just large enough
      have valid' : Valid buf' := ⟨Nat.le_of_eq noRoom.symm, by rw [noRoom]; exact inside⟩
      exact works_ok result valid' kept

theorem works_clear (valid : Valid buf) : Works reallocs buf .clear :=
  works_ok rfl valid.clear (content_clearBuffer buf)

/-- The operation does not give the block of a buffer with a capacity back. -/
def KeepsBlock (buf : Buffer) (op : BufferOp) : Prop := op = .resize 0 → buf.cap = 0

theorem works_of_keepsBlock (valid : Valid buf) {op : BufferOp} (keeps : KeepsBlock buf op) :
    Works reallocs buf op := by
  cases op with
  | push bytes => exact works_push valid bytes
  | resize size => exact works_resize valid fun zero => keeps (by rw [zero])
  | clear => exact works_clear valid

/-- The block of a buffer that still counts its capacity must not be given back. -/
theorem works_iff (valid : Valid buf) {op : BufferOp} : Works reallocs buf op ↔ KeepsBlock buf op := by
  constructor
  · rintro ⟨status, buf', result, does⟩ rfl
    simp only [BufferOp.run, resizeBuffer, if_true, Option.some.injEq, Prod.mk.injEq] at result
    obtain ⟨-, rfl⟩ := result
    exact Nat.le_zero.mp does.valid.cap_le_block
  · exact works_of_keepsBlock valid

theorem BufferRun.valid (run : BufferRun KeepsBlock buf) : Valid buf := by
  induction run with
  | create => exact valid_emptyBuffer
  | step _ op reallocs meets ran ih =>
    obtain ⟨status, buf', result, does⟩ := works_of_keepsBlock ih meets
    cases result.symm.trans ran
    exact does.valid

/-- In every run that gives no block with a capacity back the buffer is valid, and the next
operation then works exactly if it does not do so either. -/
theorem bufferRun_works (run : BufferRun KeepsBlock buf) :
    Valid buf ∧ ∀ op reallocs, Works reallocs buf op ↔ KeepsBlock buf op :=
  ⟨run.valid, fun _ _ => works_iff run.valid⟩

/-- A buffer that received a byte grows, shrinks again and is cleared. -/
theorem bufferRun_works_three :
    ∃ buf, BufferRun KeepsBlock buf ∧ Valid buf ∧ buf.cap = 2 ∧ Works [none] buf (.resize 1) ∧
      ¬ Works [] buf (.resize 0) := by
  have first : BufferRun KeepsBlock _ := .step .create (.push [65]) [] nofun rfl
  have second := first.step (.resize 2) [some [66]] nofun rfl
  have third := second.step .clear [] nofun rfl
  obtain ⟨valid, works⟩ := bufferRun_works third
  refine ⟨_, third, valid, rfl, (works _ _).mpr nofun, fun wrong => ?_⟩
  exact absurd ((works _ _).mp wrong rfl) (by decide)

/-- After `resize_buffer(buf, 0)` a buffer that held a byte has a capacity of one byte and no
block, and a push of a byte copies it to `NULL`. -/
theorem resize_to_zero_keeps_cap :
    ¬ (∀ buf, BufferRun (fun _ _ => True) buf →
      Valid buf ∧ ∀ op reallocs, Works reallocs buf op) ∧
    ∃ buf, BufferRun (fun _ _ => True) buf ∧ buf.cap = 1 ∧ buf.data.size = 0 ∧
      ∀ reallocs, (BufferOp.push [66]).run reallocs buf = none := by
  have first : BufferRun (fun _ _ => True) _ := .step .create (.push [65]) [] trivial rfl
  have second := first.step (.resize 0) [] trivial rfl
  refine ⟨fun all => ?_, _, second, rfl, rfl, fun _ => rfl⟩
  exact absurd (all _ second).1.cap_le_block (by decide)

end Runs

end Cask.Conn
