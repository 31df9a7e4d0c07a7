import Cask.Db.History

/-! # When an insertion is all or nothing

An insertion that returns `ERR` should leave the file alone, and one that returns `OK`
should have put its whole record at the old end of the file.  The code makes the bucket
or the last link point at the new record before it writes the record, takes a failed
`fstat` for an empty file, and does not compare the count of the record write with the
size of the record.  `Settled` collects the outcomes in which none of this matters;
`allOrNothing_iff` shows that these are exactly the insertions that are all or nothing.
-/

namespace Cask.Database

open Storage Fuel

variable {db : Db} {val : List UInt8} {calls : InsertCalls} {fuel : Nat} {res : InsertResult}

/-! ## The property -/

/-- The bucket table, the file size and every byte of the file are as before; the id counter
may have advanced. -/
structure Untouched (db db' : Db) : Prop where
  size : db'.file.size = db.file.size
  bytes : ∀ i, 8 ≤ i → i < db.file.size → db'.file.byte i = db.file.byte i
  id : db'.id = db.id ∨ db'.id = (db.id + 1) % 2 ^ 64

/-- All bytes of the new record are in the file at the old end of file. -/
structure Recorded (db : Db) (val : List UInt8) (db' : Db) : Prop where
  inside : db.file.size + (recHdrSize + val.length) ≤ db'.file.size
  record : db'.file.Holds db.file.size (recordBytes val db.id)

def AllOrNothing (db : Db) (val : List UInt8) (res : InsertResult) : Prop :=
  match res.ret with
  | .err => Untouched db res.db
  | .ok => Recorded db val res.db

/-! ## The condition -/

/-- Writing `bytes` at `off` changes nothing. -/
def NoOp (file : Image) (off : Nat) (bytes : List UInt8) : Prop :=
  bytes = [] ∨ off + bytes.length ≤ file.size ∧ file.Holds off bytes

/-- `fstat` works and the whole record is written. -/
def WholeRecord (file : Image) (val : List UInt8) (calls : InsertCalls) : Prop :=
  calls.fstat = true ∧ calls.recordCount file.size val.length = some (recHdrSize + val.length)

/-- After the link was written in full: the record follows it, or the record fails and the link
had been there before. -/
def LinkSettled (file : Image) (val : List UInt8) (calls : InsertCalls) (last : Nat) : Prop :=
  WholeRecord file val calls ∨
    calls.recordCount (getFileSize file calls.fstat) val.length = none ∧
      NoOp file (last + recHdrSize) (leBytes 8 (getFileSize file calls.fstat))

/-- The outcomes in which an insertion is all or nothing, from the state before it. -/
def Settled (fuel : Nat) (db : Db) (val : List UInt8) (calls : InsertCalls) : Prop :=
  calls.wrlock = true →
    if db.bucket db.index = dbidFree then WholeRecord db.file val calls
    else
      ∀ last, lastLink db.advance.file calls.pread fuel (db.bucket db.index) = .ok (some last) →
        ∀ count, calls.linkWrite.written (last + recHdrSize) 8 = some count →
          if count = 8 then LinkSettled db.file val calls last
          else NoOp db.file (last + recHdrSize) ((leBytes 8 (getFileSize db.file calls.fstat)).take count)

/-! ## The two kinds of write -/

/-- A record write at the position `db_insert` computed leaves the record at the old end of
file exactly when that position is the end of file and nothing is cut off. -/
theorem recorded_iff {db₁ : Db} {id count : Nat} (nonempty : 0 < db.file.size) (isId : id = db.id)
    (lower : db.file.size ≤ db₁.file.size) (upper : db₁.file.size ≤ db.file.size + 8)
    (most : count ≤ recHdrSize + val.length) :
    Recorded db val ⟨db₁.file.write (getFileSize db.file calls.fstat)
      ((recordBytes val id).take count), db₁.mapSize⟩ ↔
      calls.fstat = true ∧ count = recHdrSize + val.length := by
  have hdr : recHdrSize = 20 := rfl
  have len : ((recordBytes val id).take count).length = count := by
    rw [List.length_take, recordBytes_length]
    omega
  rw [isId] at len ⊢
  constructor
  · rintro ⟨inside, _⟩
    have size : (db₁.file.write (getFileSize db.file calls.fstat) ((recordBytes val db.id).take count)).size ≤
        max (db.file.size + 8) (getFileSize db.file calls.fstat + count) := by
      by_cases empty : (recordBytes val db.id).take count = []
      · rw [empty, Image.write_nil]
        omega
      · rw [Image.write_size empty, len]
        omega
    -- the whole record fits only when it was written whole, at the end of the file
    have reaches := le_trans inside size
    cases works : calls.fstat with
    | true =>
      simp only [getFileSize, works, ↓reduceIte] at reaches
      exact ⟨rfl, by omega⟩
    | false =>
      simp only [getFileSize, works, Bool.false_eq_true, ↓reduceIte] at reaches
      omega
  · rintro ⟨works, rfl⟩
    have pos : getFileSize db.file calls.fstat = db.file.size := by simp [getFileSize, works]
    have whole : (recordBytes val db.id).take (recHdrSize + val.length) = recordBytes val db.id := by
      rw [← recordBytes_length val db.id, List.take_length]
    rw [pos, whole]
    refine ⟨?_, Image.holds_write⟩
    change _ ≤ (db₁.file.write _ _).size
    rw [Image.write_size (recordBytes_ne_nil _ _), recordBytes_length]
    exact le_max_right _ _

/-- A write behind the header of a record leaves the file untouched exactly when it is a no-op. -/
theorem untouched_write_iff {off : Nat} {bytes : List UInt8} (present : 8 ≤ db.file.size)
    (past : 8 ≤ off) :
    Untouched db ⟨db.advance.file.write off bytes, db.mapSize⟩ ↔ NoOp db.file off bytes := by
  have size : db.advance.file.size = db.file.size := advance_size present
  have id : (⟨db.advance.file.write off bytes, db.mapSize⟩ : Db).id = (db.id + 1) % 2 ^ 64 := by
    rw [← advance_id]
    exact Image.readNat_write_disjoint (by omega)
  constructor
  · rintro ⟨sameSize, sameBytes, _⟩
    by_cases empty : bytes = []
    · exact .inl empty
    · right
      change (db.advance.file.write off bytes).size = _ at sameSize
      rw [Image.write_size empty, size] at sameSize
      -- a write that leaves the size alone lies inside the file
      have inside : off + bytes.length ≤ db.file.size := by omega
      refine ⟨inside, fun k bound => ?_⟩
      rw [← sameBytes (off + k) (by omega) (by omega)]
      exact Image.holds_write k bound
  · rintro (rfl | ⟨inside, holds⟩)
    · rw [Image.write_nil]
      exact ⟨size, fun i past' _ => advance_byte past', .inr advance_id⟩
    · refine ⟨?_, fun i past' _ => ?_, .inr id⟩
      · change (db.advance.file.write off bytes).size = _
        rw [Image.write_size_inside (by rw [size]; exact inside), size]
      · change (db.advance.file.write off bytes).byte i = _
        by_cases written : off ≤ i ∧ i < off + bytes.length
        · have byte := holds (i - off) (by omega)
          rw [Nat.add_sub_cancel' written.1] at byte
          rw [Image.write_byte_inside written.1 written.2, byte]
        · rw [Image.write_byte_outside (by omega), advance_byte past']

/-! ## The branches -/

/-- The end of an insertion whose link is made: all or nothing if the record is whole, or if
nothing is recorded and the link changed nothing. -/
theorem finish_iff {db₁ : Db} (nonempty : 0 < db.file.size) (lower : db.file.size ≤ db₁.file.size)
    (upper : db₁.file.size ≤ db.file.size + 8) :
    AllOrNothing db val (finishInsert db₁ val db.id (getFileSize db.file calls.fstat) calls) ↔
      WholeRecord db.file val calls ∨
        calls.recordCount (getFileSize db.file calls.fstat) val.length = none ∧
        Untouched db db₁ := by
  rw [finishInsert_eq]
  have pos : calls.fstat = true → getFileSize db.file calls.fstat = db.file.size := by
    intro works
    simp [getFileSize, works]
  cases moved : calls.recordCount (getFileSize db.file calls.fstat) val.length with
  | none =>
    simp only [AllOrNothing, true_and]
    constructor
    · exact .inr
    · rintro (⟨works, whole⟩ | untouched)
      · rw [pos works, whole] at moved
        cases moved
      · exact untouched
  | some count =>
    -- some bytes were written: nothing but the whole record will do
    have most : count ≤ recHdrSize + val.length := by
      unfold InsertCalls.recordCount at moved
      split at moved
      · exact (Outcome.written_le moved).1
      · cases moved
    simp only [AllOrNothing, reduceCtorEq, false_and, or_false]
    rw [recorded_iff nonempty rfl lower upper most, WholeRecord]
    constructor
    · rintro ⟨works, rfl⟩
      rw [pos works] at moved
      exact ⟨works, moved⟩
    · rintro ⟨works, whole⟩
      rw [pos works, whole] at moved
      exact ⟨works, (Option.some.inj moved).symm⟩

/-- Filling an empty bucket is a visible change. -/
theorem not_untouched_setBucket (limit : db.file.size < offLimit)
    (free : db.bucket db.index = dbidFree) :
    ¬ Untouched db (db.advance.setBucket db.index (getFileSize db.file calls.fstat)) := by
  intro untouched
  have small : getFileSize db.file calls.fstat < offLimit := by
    unfold getFileSize
    split
    · exact limit
    · decide
  have bound : offLimit < dbidFree := by decide
  have filled : (db.advance.setBucket db.index (getFileSize db.file calls.fstat)).bucket db.index =
      getFileSize db.file calls.fstat := by
    apply setBucket_bucket
    have : offLimit < 2 ^ 64 := by decide
    omega
  have kept : (db.advance.setBucket db.index (getFileSize db.file calls.fstat)).bucket db.index = dbidFree := by
    rw [← free]
    have past := bucketOff_ge db.index
    have present : bucketOff db.index + 8 ≤ db.file.size := free_present free
    simp only [sizeofHeader] at past
    exact Image.readNat_congr fun i _ _ => untouched.bytes i (by omega) (by omega)
  omega

theorem free_iff (acc : Accessible db) (limit : db.file.size < offLimit)
    (free : db.bucket db.index = dbidFree) :
    AllOrNothing db val (finishInsert (db.advance.setBucket db.index
      (getFileSize db.file calls.fstat)) val db.id
      (getFileSize db.file calls.fstat) calls) ↔ WholeRecord db.file val calls := by
  have header := acc.header_present
  have size : (db.advance.setBucket db.index (getFileSize db.file calls.fstat)).file.size = db.file.size :=
    advance_setBucket_size (free_present free)
  have nonempty : 0 < db.file.size := lt_of_lt_of_le (by decide) header
  rw [finish_iff nonempty (by omega) (by omega)]
  constructor
  · rintro (whole | ⟨_, untouched⟩)
    · exact whole
    · exact absurd untouched (not_untouched_setBucket limit free)
  · exact .inl

theorem link_iff (acc : Accessible db) (limit : db.file.size < offLimit) {last : Nat}
    (present : last + recHdrSize ≤ db.file.size) :
    AllOrNothing db val (linkAndFinish db.advance val db.id (getFileSize db.file calls.fstat) calls
      (some last)) ↔
      ∀ count, calls.linkWrite.written (last + recHdrSize) 8 = some count →
        if count = 8 then LinkSettled db.file val calls last
        else NoOp db.file (last + recHdrSize)
        ((leBytes 8 (getFileSize db.file calls.fstat)).take count) := by
  have header : 16 ≤ db.file.size := acc.header_present
  have size : db.advance.file.size = db.file.size := acc.advance_size
  have hdr : recHdrSize = 20 := rfl
  have small : (last + offsetofOffset) % 2 ^ 64 = last + recHdrSize := by
    simp only [offLimit] at limit
    exact Nat.mod_eq_of_lt (by simp only [offsetofOffset]; omega)
  simp only [linkAndFinish, small, pwrite, leBytes_length]
  cases moved : calls.linkWrite.written (last + recHdrSize) 8 with
  | none =>
    -- the link was not written: only the counter has moved
    constructor
    · intro _ count impossible
      cases impossible
    · intro _
      exact ⟨size, fun i past _ => advance_byte past, .inr advance_id⟩
  | some count =>
    have most := (Outcome.written_le moved).1
    simp only [Option.some.injEq, forall_eq', sizeofDbid]
    by_cases full : count = 8
    · have whole : ∀ pos, (leBytes 8 pos).take 8 = leBytes 8 pos := fun pos =>
        List.take_of_length_le (by simp)
      simp only [full, ↓reduceIte, whole, LinkSettled]
      have linkable : last + recHdrSize ≤ db.advance.file.size := by omega
      obtain ⟨lower, upper⟩ := link_size linkable (getFileSize db.file calls.fstat)
      rw [size] at lower upper
      rw [finish_iff (by omega) lower upper, advance_mapSize, untouched_write_iff (by omega) (by omega)]
    · simp only [full, ↓reduceIte]
      exact untouched_write_iff (by omega) (by omega)

/-! ## The theorem -/

theorem allOrNothing_iff_of_size (header : sizeofHeader ≤ db.file.size) (limit : db.file.size < offLimit)
    (returned : dbInsert fuel db val calls = .ok res) :
    AllOrNothing db val res ↔ Settled fuel db val calls := by
  obtain ⟨lock, rfl⟩ | ⟨lock, acc, ⟨free, rfl⟩ | ⟨taken, found, walk, rfl⟩⟩ := dbInsert_cases header returned
  · -- without the lock nothing happens
    constructor
    · intro _ locked
      rw [lock] at locked
      cases locked
    · intro _
      exact ⟨rfl, fun _ _ _ => rfl, .inl rfl⟩
  · simp only [Settled, lock, forall_const]
    rw [if_pos free]
    exact free_iff acc limit free
  · simp only [Settled, lock, forall_const]
    rw [if_neg taken, walk]
    cases found with
    | none =>
      -- a failed read: only the counter has moved
      constructor
      · intro _ last impossible
        cases impossible
      · intro _
        exact ⟨acc.advance_size, fun i past _ => advance_byte past, .inr advance_id⟩
    | some last =>
      have present := (lastLink_some walk).2
      rw [acc.advance_size] at present
      rw [link_iff acc limit present]
      simp

/-! ## Reachable states -/

/-- The states of a database over its life: created by `open_db`, then changed by insertions
whose calls have any outcome, and by closing and opening again. -/
inductive Reachable : Db → Prop where
  | created {n : Nat} {calls : OpenCalls} {db : Db} {disk : Option Image} (positive : 1 ≤ n)
      (created : openDb none ⟨n⟩ calls = .ok (some db, disk)) : Reachable db
  | inserted {db : Db} {val : List UInt8} {calls : InsertCalls} {fuel : Nat} {res : InsertResult}
      (before : Reachable db) (lenBound : val.length < 2 ^ 32)
      (returned : dbInsert fuel db val calls = .ok res) : Reachable res.db
  | reopened {db db' : Db} {params : DbParams} {calls : OpenCalls} {disk : Option Image} (before : Reachable db)
      (opened : openDb (some (closeDb db)) params calls = .ok (some db', disk)) : Reachable db'

/-- The file has a header, and its size fits the file offset type. -/
structure Sized (file : Image) : Prop where
  header : sizeofHeader ≤ file.size
  limit : file.size < offLimit

theorem created_sized {n : Nat} {calls : OpenCalls} {disk : Option Image}
    (created : openDb none ⟨n⟩ calls = .ok (some db, disk)) : Sized db.file := by
  obtain ⟨rfl, -, fits⟩ := openDb_created_wrapped created
  refine ⟨?_, ?_⟩
  · rw [tableFile_size]
    exact Nat.le_add_right _ _
  · rwa [tableFile_size]

theorem Sized.write {file : Image} {off : Nat} {bytes : List UInt8} (sized : Sized file)
    (fits : off + bytes.length < offLimit) : Sized (file.write off bytes) := by
  refine ⟨le_trans sized.header Image.le_write_size, ?_⟩
  by_cases empty : bytes = []
  · rw [empty, Image.write_nil]
    exact sized.limit
  · rw [Image.write_size empty]
    exact max_lt sized.limit fits

theorem Sized.congr {file file' : Image} (sized : Sized file) (size : file'.size = file.size) : Sized file' :=
  ⟨by rw [size]; exact sized.header, by rw [size]; exact sized.limit⟩

theorem finishInsert_sized {id pos : Nat} (sized : Sized db.file) :
    Sized (finishInsert db val id pos calls).db.file := by
  rw [finishInsert_eq]
  cases moved : calls.recordCount pos val.length with
  | none => exact sized
  | some count =>
    unfold InsertCalls.recordCount at moved
    split at moved
    · have fits := (Outcome.written_le moved).2
      apply sized.write
      rw [List.length_take, recordBytes_length]
      omega
    · cases moved

theorem linkAndFinish_sized {id pos : Nat} {found : Option Nat} (sized : Sized db.file) :
    Sized (linkAndFinish db val id pos calls found).db.file := by
  cases found with
  | none => exact sized
  | some last =>
    simp only [linkAndFinish, pwrite, leBytes_length]
    cases moved : calls.linkWrite.written ((last + offsetofOffset) % 2 ^ 64) 8 with
    | none => exact sized
    | some count =>
      have fits := (Outcome.written_le moved).2
      have linked : Sized (db.file.write ((last + offsetofOffset) % 2 ^ 64) ((leBytes 8 pos).take count)) := by
        apply sized.write
        rw [List.length_take, leBytes_length]
        omega
      simp only
      split
      · exact finishInsert_sized linked
      · exact linked

theorem dbInsert_sized (sized : Sized db.file)
    (returned : dbInsert fuel db val calls = .ok res) : Sized res.db.file := by
  obtain ⟨-, rfl⟩ | ⟨-, acc, ⟨free, rfl⟩ | ⟨-, found, -, rfl⟩⟩ := dbInsert_cases sized.header returned
  · exact sized
  · exact finishInsert_sized (sized.congr (advance_setBucket_size (free_present free)))
  · exact linkAndFinish_sized (sized.congr acc.advance_size)

theorem Reachable.sized (reachable : Reachable db) : Sized db.file := by
  induction reachable with
  | created _ created => exact created_sized created
  | inserted _ _ returned ih => exact dbInsert_sized ih returned
  | @reopened db db' params calls disk _ opened ih =>
    simp only [openDb] at opened
    split at opened
    · cases opened
    · obtain ⟨opened, _⟩ : openExisting (closeDb db) calls = some db' ∧ _ := by simpa using opened
      unfold openExisting at opened
      split at opened
      · cases opened
      · split at opened
        · cases opened
        · split at opened
          · cases opened
          · simp only at opened
            split at opened
            · cases opened
            · cases opened
              exact ih

/-- From any state of its life and for any outcome of its calls, an insertion is all or nothing
exactly when it is settled. -/
theorem allOrNothing_iff (reachable : Reachable db)
    (returned : dbInsert fuel db val calls = .ok res) :
    AllOrNothing db val res ↔ Settled fuel db val calls :=
  allOrNothing_iff_of_size reachable.sized.header reachable.sized.limit returned

/-- A fresh database with one bucket. -/
def oneBucket : Db := ⟨freshFile 1, 24⟩

theorem oneBucket_reachable : Reachable oneBucket :=
  .created (n := 1) (le_refl _) (openDb_fresh (by decide))

/-- One bucket with one record. -/
def oneRecord : Db := ((dbInsert 1 oneBucket [0x61] .succeed).toOption.map InsertResult.db).getD oneBucket

theorem oneRecord_inserted : dbInsert 1 oneBucket [0x61] .succeed = .ok ⟨oneRecord, .ok, some 0⟩ := rfl

/-- The link to a second record is cut after three of its bytes. -/
theorem allOrNothing_iff_oneRecord :
    ∃ res, dbInsert 2 oneRecord [0x62] { InsertCalls.succeed with linkWrite := .short 3 } = .ok res ∧ res.ret = .err ∧
      (AllOrNothing oneRecord [0x62] res ↔
        Settled 2 oneRecord [0x62] { InsertCalls.succeed with linkWrite := .short 3 }) :=
  ⟨_, rfl, rfl, allOrNothing_iff (.inserted oneBucket_reachable (by decide) oneRecord_inserted) rfl⟩

/-- A failed `malloc` leaves the bucket pointing at a record that was never written, and a record
write cut after four bytes is reported as a success. -/
theorem not_allOrNothing_oneBucket :
    (∃ res, dbInsert 1 oneBucket [0x61] { InsertCalls.succeed with malloc := false } = .ok res ∧
      res.ret = .err ∧ ¬ AllOrNothing oneBucket [0x61] res) ∧
    (∃ res, dbInsert 1 oneBucket [0x61] { InsertCalls.succeed with recordWrite := .short 4 } =
      .ok res ∧
      res.ret = .ok ∧ ¬ AllOrNothing oneBucket [0x61] res) := by
  refine ⟨⟨_, rfl, rfl, fun untouched => ?_⟩, ⟨_, rfl, rfl, fun recorded => ?_⟩⟩
  · exact absurd (untouched.bytes 16 (by decide) (by decide)) (by decide)
  · exact absurd recorded.inside (by decide)

end Cask.Database
