import Cask.Db.Model

/-! # What one insertion does

`dbInsert` as a case analysis on the state before the call.  An insertion that returns
either did not get the lock, or found its bucket in the mapped pages (`Accessible`).  In
the second case it advanced the id counter and then took the branch of an empty bucket
or the branch of a bucket in use; the equations `dbInsert_free` and `dbInsert_taken` say
what each branch computes.
-/

namespace Cask.Database

open Storage Fuel

variable {db db' : Db} {val : List UInt8} {calls : InsertCalls} {fuel : Nat} {res : InsertResult}

/-! ## Reading the header and the table -/

def Db.id (db : Db) : Nat := db.file.readNat 0 8

theorem Db.id_lt (db : Db) : db.id < 2 ^ 64 := wordAt_lt ..

def Db.numBuckets (db : Db) : Nat := db.file.readNat 8 8

def Db.bucket (db : Db) (index : Nat) : Nat := db.file.readNat (bucketOff index) 8

/-- The bucket of the next insertion. -/
def Db.index (db : Db) : Nat := db.id % db.numBuckets

/-- The database after `meta->id++`. -/
def Db.advance (db : Db) : Db :=
  { db with file := db.file.write 0 (leBytes 8 ((db.id + 1) % 2 ^ 64)) }

def Db.setBucket (db : Db) (index value : Nat) : Db :=
  { db with file := db.file.write (bucketOff index) (leBytes 8 value) }

/-- The header is there, and the bucket of the next insertion is in a mapped page. -/
structure Accessible (db : Db) : Prop where
  header_present : sizeofHeader ≤ db.file.size
  map_nonempty : 0 < db.mapSize
  numBuckets_ne : db.numBuckets ≠ 0
  bucket_mapped : db.Mapped (bucketOff db.index)

theorem bucketOff_ge (index : Nat) : sizeofHeader ≤ bucketOff index := Nat.le_add_right _ _

theorem bucketOff_lt {index n : Nat} (bound : index < n) :
    bucketOff index + 8 ≤ sizeofHeader + sizeofDbid * n := by
  simp only [bucketOff, sizeofDbid]
  omega

theorem bucketOff_disjoint {i j : Nat} (distinct : i ≠ j) :
    bucketOff i + 8 ≤ bucketOff j ∨ bucketOff j + 8 ≤ bucketOff i := by
  simp only [bucketOff, sizeofDbid]
  omega

/-! ## Mapped pages -/

theorem pageSize_le_pageEnd {size : Nat} (positive : 0 < size) : pageSize ≤ pageEnd size := by
  simp only [pageEnd, pageSize]
  omega

/-- The header is in the first page. -/
theorem mapped_header {off : Nat} (inHeader : off + sizeofDbid ≤ sizeofHeader) (nonempty : 0 < db.mapSize)
    (present : sizeofHeader ≤ db.file.size) : db.Mapped off := by
  have firstPage : sizeofHeader ≤ pageSize := by decide
  have page : off + sizeofDbid ≤ pageSize := le_trans inHeader firstPage
  exact ⟨le_trans page (pageSize_le_pageEnd nonempty),
    le_trans page (pageSize_le_pageEnd (lt_of_lt_of_le (by decide) present))⟩

theorem load_mapped {off : Nat} (mapped : db.Mapped off) : db.load off = .ok (db.file.readNat off 8) := if_pos mapped

theorem store_mapped {off : Nat} (mapped : db.Mapped off) (inside : off + sizeofDbid ≤ db.file.size) (value : Nat) :
    db.store off value = .ok { db with file := db.file.write off (leBytes 8 value) } := by
  have whole : (leBytes sizeofDbid value).take (db.file.size - off) = leBytes sizeofDbid value :=
    List.take_of_length_le (by rw [leBytes_length]; omega)
  rw [Db.store, if_pos mapped, whole]
  rfl

/-- A word of ones lies inside the file. -/
theorem free_present {file : Image} {off : Nat} (free : file.readNat off 8 = dbidFree) : off + 8 ≤ file.size := by
  by_contra outside
  have zero : file.byte (off + 7) = 0 := file.zero_past_end _ (by omega)
  have low : file.readNat off 8 = file.readNat off 7 := by simp [Image.readNat, wordAt, zero]
  have bound : file.readNat off 7 < 256 ^ 7 := wordAt_lt ..
  rw [← low, free] at bound
  exact absurd bound (by decide)

/-! ## Effect of the two stores -/

@[simp] theorem advance_mapSize : db.advance.mapSize = db.mapSize := rfl

theorem advance_size (room : 8 ≤ db.file.size) : db.advance.file.size = db.file.size :=
  Image.write_size_inside (by simpa using room)

/-- A link inside the file makes it longer by at most its own eight bytes. -/
theorem link_size {file : Image} {off : Nat} (present : off ≤ file.size) (pos : Nat) :
    file.size ≤ (file.write off (leBytes 8 pos)).size ∧
      (file.write off (leBytes 8 pos)).size ≤ file.size + 8 := by
  refine ⟨Image.le_write_size, ?_⟩
  rw [Image.write_size (by simp [leBytes]), leBytes_length]
  omega

theorem Accessible.advance_size (acc : Accessible db) : db.advance.file.size = db.file.size :=
  Database.advance_size (le_trans (by decide) acc.header_present)

theorem advance_mapped {off : Nat} (room : 8 ≤ db.file.size) : db.advance.Mapped off ↔ db.Mapped off := by
  rw [Db.Mapped, Db.Mapped, advance_size room, advance_mapSize]

theorem advance_id : db.advance.id = (db.id + 1) % 2 ^ 64 := by
  simp only [Db.advance, Db.id, Image.readNat_write_same]
  norm_num

theorem advance_byte {i : Nat} (past : 8 ≤ i) : db.advance.file.byte i = db.file.byte i :=
  Image.write_byte_outside (by rw [leBytes_length]; omega)

theorem advance_readNat {off width : Nat} (past : 8 ≤ off) :
    db.advance.file.readNat off width = db.file.readNat off width :=
  Image.readNat_congr fun _ lower _ => advance_byte (by omega)

@[simp] theorem advance_numBuckets : db.advance.numBuckets = db.numBuckets :=
  advance_readNat (le_refl 8)

@[simp] theorem advance_bucket {index : Nat} : db.advance.bucket index = db.bucket index :=
  advance_readNat (by simp only [bucketOff, sizeofHeader]; omega)

theorem setBucket_size {index value : Nat} (room : bucketOff index + 8 ≤ db.file.size) :
    (db.setBucket index value).file.size = db.file.size :=
  Image.write_size_inside (by simpa using room)

/-- Both stores leave the size of the file as it is. -/
theorem advance_setBucket_size {index value : Nat} (room : bucketOff index + 8 ≤ db.file.size) :
    (db.advance.setBucket index value).file.size = db.file.size := by
  have size : db.advance.file.size = db.file.size :=
    advance_size (le_trans (Nat.le_add_left 8 _) room)
  rw [setBucket_size (by rw [size]; exact room), size]

theorem setBucket_bucket {index value : Nat} (bound : value < 2 ^ 64) :
    (db.setBucket index value).bucket index = value := by
  simp only [Db.setBucket, Db.bucket, Image.readNat_write_same]
  exact Nat.mod_eq_of_lt (by norm_num at bound ⊢; omega)

theorem setBucket_bucket_ne {i j value : Nat} (distinct : i ≠ j) :
    (db.setBucket i value).bucket j = db.bucket j := by
  apply Image.readNat_write_disjoint
  rw [leBytes_length]
  exact (bucketOff_disjoint distinct).symm

theorem setBucket_header {index value : Nat} {off : Nat} (inHeader : off + 8 ≤ sizeofHeader) :
    (db.setBucket index value).file.readNat off 8 = db.file.readNat off 8 :=
  Image.readNat_write_disjoint (by have := bucketOff_ge index; omega)

/-! ## The branches -/

section Branches

variable (acc : Accessible db) (lock : calls.wrlock = true)

include acc lock

/-- The whole of `db_insert` after the lock, for a bucket that can be reached. -/
theorem dbInsert_started :
    dbInsert fuel db val calls =
      if db.bucket db.index = dbidFree then
        .ok (finishInsert (db.advance.setBucket db.index (getFileSize db.file calls.fstat)) val db.id
          (getFileSize db.file calls.fstat) calls)
      else
        (lastLink db.advance.file calls.pread fuel (db.bucket db.index)).map
          (linkAndFinish db.advance val db.id (getFileSize db.file calls.fstat) calls) := by
  obtain ⟨present, nonempty, nonzero, mapped⟩ := acc
  have header : sizeofHeader = 16 := rfl
  have size : db.advance.file.size = db.file.size := advance_size (by omega)
  have pos : getFileSize db.advance.file calls.fstat = getFileSize db.file calls.fstat := by
    simp only [getFileSize, size]
  have loadId : db.load 0 = .ok db.id := load_mapped (mapped_header (by decide) nonempty present)
  have storeId : db.store 0 ((db.id + 1) % 2 ^ 64) = .ok db.advance :=
    store_mapped (mapped_header (by decide) nonempty present) (le_trans (by decide) present) _
  have loadNum : db.advance.load 8 = .ok db.numBuckets := by
    rw [← advance_numBuckets]
    exact load_mapped (mapped_header (by decide) nonempty (by rw [size]; exact present))
  have mapped' : db.advance.Mapped (bucketOff db.index) := (advance_mapped (by omega)).mpr mapped
  have loadBucket : db.advance.load (bucketOff db.index) = .ok (db.bucket db.index) := by
    rw [← advance_bucket]
    exact load_mapped mapped'
  -- the header is mapped, so nothing stops before the bucket is read
  simp only [dbInsert, lock, Bool.not_true, Bool.false_eq_true, ↓reduceIte, loadId, storeId, bind,
    Except.bind, loadNum, if_neg nonzero]
  rw [← Db.index]
  simp only [loadBucket, pos]
  split
  · next free =>
    -- an empty bucket lies inside the file, and is written as a whole
    have inside : bucketOff db.index + sizeofDbid ≤ db.advance.file.size := free_present (advance_bucket.trans free)
    simp only [store_mapped mapped' inside]
    rfl
  · cases lastLink db.advance.file calls.pread fuel (db.bucket db.index) <;> rfl

theorem dbInsert_free (free : db.bucket db.index = dbidFree) :
    dbInsert fuel db val calls =
      .ok (finishInsert (db.advance.setBucket db.index (getFileSize db.file calls.fstat)) val db.id
        (getFileSize db.file calls.fstat) calls) := by
  rw [dbInsert_started acc lock, if_pos free]

theorem dbInsert_taken (taken : db.bucket db.index ≠ dbidFree) :
    dbInsert fuel db val calls =
      (lastLink db.advance.file calls.pread fuel (db.bucket db.index)).map
        (linkAndFinish db.advance val db.id (getFileSize db.file calls.fstat) calls) := by
  rw [dbInsert_started acc lock, if_neg taken]

end Branches

theorem load_ok {off value : Nat} (loaded : db.load off = .ok value) :
    value = db.file.readNat off 8 ∧ db.Mapped off := by
  unfold Db.load at loaded
  split at loaded
  · next mapped => exact ⟨(Except.ok.inj loaded).symm, mapped⟩
  · cases loaded

/-- An insertion that returns after taking the lock found its bucket in the mapped pages. -/
theorem accessible_of_ok (header : sizeofHeader ≤ db.file.size) (lock : calls.wrlock = true)
    (returned : dbInsert fuel db val calls = .ok res) : Accessible db := by
  simp only [dbInsert, lock, Bool.not_true, Bool.false_eq_true, ↓reduceIte] at returned
  obtain ⟨id, loadId, returned⟩ := bind_ok returned
  obtain ⟨db₁, storeId, returned⟩ := bind_ok returned
  obtain ⟨num, loadNum, returned⟩ := bind_ok returned
  obtain ⟨idEq, mappedId⟩ := load_ok loadId
  have nonempty : 0 < db.mapSize := by
    by_contra empty
    have none : db.mapSize = 0 := by omega
    have reached := mappedId.1
    rw [none] at reached
    exact absurd reached (by decide)
  have advanced : db₁ = db.advance := by
    rw [store_mapped mappedId (le_trans (by decide) header), idEq] at storeId
    exact (Except.ok.inj storeId).symm
  obtain ⟨numEq, -⟩ := load_ok loadNum
  rw [advanced] at numEq
  change id = db.id at idEq
  change num = db.advance.numBuckets at numEq
  rw [advance_numBuckets] at numEq
  rw [idEq, numEq, advanced] at returned
  by_cases nonzero : db.numBuckets = 0
  · simp only [nonzero, ↓reduceIte] at returned
    cases returned
  · simp only [nonzero, ↓reduceIte] at returned
    -- an access that went through was inside the mapped pages
    obtain ⟨offset, loadBucket, _⟩ := bind_ok returned
    obtain ⟨_, mapped⟩ := load_ok loadBucket
    exact ⟨header, nonempty, nonzero, (advance_mapped (le_trans (by decide) header)).mp mapped⟩

theorem dbInsert_unlocked (lock : calls.wrlock = false) :
    dbInsert fuel db val calls = .ok ⟨db, .err, none⟩ := by
  simp [dbInsert, lock]

/-- What an insertion that returned can have done: nothing without the lock; else it filled an empty
bucket, or it walked along the chain and put the link behind the record that it found. -/
theorem dbInsert_cases (header : sizeofHeader ≤ db.file.size) (returned : dbInsert fuel db val calls = .ok res) :
    (calls.wrlock = false ∧ res = ⟨db, .err, none⟩) ∨
      calls.wrlock = true ∧ Accessible db ∧
        ((db.bucket db.index = dbidFree ∧
            res = finishInsert (db.advance.setBucket db.index (getFileSize db.file calls.fstat)) val db.id
              (getFileSize db.file calls.fstat) calls) ∨
          db.bucket db.index ≠ dbidFree ∧ ∃ found,
            lastLink db.advance.file calls.pread fuel (db.bucket db.index) = .ok found ∧
            res = linkAndFinish db.advance val db.id (getFileSize db.file calls.fstat) calls found) := by
  cases lock : calls.wrlock with
  | false =>
    rw [dbInsert_unlocked lock] at returned
    cases returned
    exact .inl ⟨rfl, rfl⟩
  | true =>
    have acc := accessible_of_ok header lock returned
    refine .inr ⟨rfl, acc, ?_⟩
    rw [dbInsert_started acc lock] at returned
    split at returned
    · next free =>
      cases returned
      exact .inl ⟨free, rfl⟩
    · next taken =>
      cases walk : lastLink db.advance.file calls.pread fuel (db.bucket db.index) with
      | error stop =>
        rw [walk] at returned
        cases returned
      | ok found =>
        rw [walk] at returned
        cases returned
        exact .inr ⟨taken, found, rfl, rfl⟩

theorem linkAndFinish_result {id pos : Nat} {found : Option Nat}
    (ok : (linkAndFinish db val id pos calls found).ret = .ok) :
    (linkAndFinish db val id pos calls found).result = some id := by
  cases found with
  | none => cases ok
  | some last =>
    simp only [linkAndFinish] at ok ⊢
    split at ok
    · next whole =>
      rw [if_pos whole]
      rfl
    · cases ok

/-- An insertion that returns `OK` hands out the id in the header. -/
theorem dbInsert_result (returned : dbInsert fuel db val calls = .ok res) (ok : res.ret = .ok) :
    res.result = some db.id := by
  cases lock : calls.wrlock with
  | false =>
    rw [dbInsert_unlocked lock] at returned
    cases returned
    cases ok
  | true =>
    simp only [dbInsert, lock, Bool.not_true, Bool.false_eq_true, if_false] at returned
    obtain ⟨id, loaded, returned⟩ := bind_ok returned
    obtain ⟨db₁, -, returned⟩ := bind_ok returned
    obtain ⟨num, -, returned⟩ := bind_ok returned
    obtain ⟨rfl, -⟩ := load_ok loaded
    by_cases nonzero : num = 0
    · simp only [nonzero, if_true] at returned
      cases returned
    · simp only [nonzero, if_false] at returned
      obtain ⟨offset, -, returned⟩ := bind_ok returned
      by_cases free : offset = dbidFree
      · simp only [free, if_true] at returned
        obtain ⟨db₂, -, returned⟩ := bind_ok returned
        cases returned
        rfl
      · simp only [free, if_false] at returned
        obtain ⟨found, -, returned⟩ := bind_ok returned
        cases returned
        exact linkAndFinish_result ok

/-! ## Writing the record -/

/-- The bytes of a fresh record, as `write_record` lays them out. -/
def recordBytes (val : List UInt8) (id : Nat) : List UInt8 :=
  leBytes 4 val.length ++ leBytes 8 id ++ leBytes 8 dbidFree ++ val

@[simp] theorem recordBytes_length (val : List UInt8) (id : Nat) :
    (recordBytes val id).length = recHdrSize + val.length := by
  simp only [recordBytes, List.length_append, leBytes_length, recHdrSize, offsetofOffset]

theorem recordBytes_ne_nil (val : List UInt8) (id : Nat) : recordBytes val id ≠ [] := by
  intro empty
  have length := recordBytes_length val id
  rw [empty] at length
  simp only [List.length_nil, recHdrSize, offsetofOffset] at length
  omega

/-- How many bytes of the record reach the file, `none` if `write_record` fails. -/
def InsertCalls.recordCount (calls : InsertCalls) (pos vlen : Nat) : Option Nat :=
  if calls.malloc then calls.recordWrite.written pos (recHdrSize + vlen) else none

theorem finishInsert_eq (db : Db) (val : List UInt8) (id pos : Nat) (calls : InsertCalls) :
    finishInsert db val id pos calls =
      match calls.recordCount pos val.length with
      | none => ⟨db, .err, some id⟩
      | some count => ⟨{ db with file := db.file.write pos ((recordBytes val id).take count) }, .ok, some id⟩ := by
  have bytes : (⟨val.length, id, dbidFree, pos, val⟩ : Record).header ++ val.take val.length = recordBytes val id := by
    rw [List.take_length]
    rfl
  cases malloc : calls.malloc with
  | false => simp [finishInsert, writeRecord, InsertCalls.recordCount, malloc]
  | true =>
    simp only [finishInsert, writeRecord, InsertCalls.recordCount, malloc, Bool.not_true, Bool.false_eq_true,
      ↓reduceIte, bytes, pwrite, recordBytes_length]
    cases calls.recordWrite.written pos (recHdrSize + val.length) <;> rfl

end Cask.Database
