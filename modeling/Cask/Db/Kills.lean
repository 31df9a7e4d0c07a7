import Cask.Db.AppendMap
import Cask.Db.Threads

/-! # Insertions that are killed

A server that is killed leaves the database file as the last access has left it.  `db_insert` fills
the bucket before it writes the record, so a kill in between leaves a bucket that points at the end of
the file, where the next insertion will put a record of its own.  As long as no bucket is used twice
this does no harm: a record has its id with it, and a lookup that comes to the wrong one says that
there is no such paste.
-/

namespace Cask.Database

open Storage Fuel

variable {n : Nat} {db db' : Db} {file file' : Image} {val : List UInt8} {entries : List (Option (List UInt8))}

/-! ## Buckets without a record -/

/-- A whole record of `id`, behind the table. -/
structure HasRecord (file : Image) (n id offset : Nat) (val : List UInt8) : Prop where
  known : id < n
  past : sizeofHeader + sizeofDbid * n ≤ offset
  inside : offset + (recHdrSize + val.length) ≤ file.size
  short : val.length < 2 ^ 32
  holds : file.Holds offset (recordBytes val id)

/-- What the bucket of `id` may say: nothing, the place of a record that was not written, a record that
another insertion wrote there, or the record of `id`. -/
inductive Slot (file : Image) (n id : Nat) : Nat → Option (List UInt8) → Prop where
  | free : Slot file n id dbidFree none
  | ahead : Slot file n id file.size none
  | other {id' offset : Nat} {val : List UInt8} (differs : id' ≠ id) (record : HasRecord file n id' offset val) :
      Slot file n id offset none
  | own {offset : Nat} {val : List UInt8} (record : HasRecord file n id offset val) : Slot file n id offset (some val)

/-- A database in which every id that was handed out has a bucket of its own, with a record or without. -/
structure Holding (n : Nat) (db : Db) (entries : List (Option (List UInt8))) : Prop where
  positive : 1 ≤ n
  mapSize : db.mapSize = sizeofHeader + sizeofDbid * n
  table_present : sizeofHeader + sizeofDbid * n ≤ db.file.size
  size_lt : db.file.size < offLimit
  numBuckets : db.numBuckets = n
  id : db.id = entries.length
  few : entries.length ≤ n
  unused : ∀ i, i < n → entries.length ≤ i → db.bucket i = dbidFree
  slot : ∀ i entry, entries[i]? = some entry → Slot db.file n i (db.bucket i) entry

theorem HasRecord.mono {id offset : Nat} (record : HasRecord file n id offset val) (grown : file.size ≤ file'.size)
    (same : ∀ i, sizeofHeader + sizeofDbid * n ≤ i → i < file.size → file'.byte i = file.byte i) :
    HasRecord file' n id offset val := by
  obtain ⟨known, past, inside, short, holds⟩ := record
  refine ⟨known, past, by omega, short, holds.congr fun i lower upper => ?_⟩
  rw [recordBytes_length] at upper
  exact same i (by omega) (by omega)

/-- Behind the table nothing has changed. -/
theorem Slot.congr {id offset : Nat} {entry : Option (List UInt8)} (slot : Slot file n id offset entry)
    (size : file'.size = file.size)
    (same : ∀ i, sizeofHeader + sizeofDbid * n ≤ i → i < file.size → file'.byte i = file.byte i) :
    Slot file' n id offset entry := by
  cases slot with
  | free => exact .free
  | ahead =>
    rw [← size]
    exact .ahead
  | other differs record => exact .other differs (record.mono (Nat.le_of_eq size.symm) same)
  | own record => exact .own (record.mono (Nat.le_of_eq size.symm) same)

/-- A record is written at the end of the file. -/
theorem Slot.append {id id' offset : Nat} {entry : Option (List UInt8)} (slot : Slot file n id offset entry)
    (differs : id' ≠ id) (record : HasRecord file' n id' file.size val) (grown : file.size ≤ file'.size)
    (same : ∀ i, sizeofHeader + sizeofDbid * n ≤ i → i < file.size → file'.byte i = file.byte i) :
    Slot file' n id offset entry := by
  cases slot with
  | free => exact .free
  | ahead => exact .other differs record
  | other differs' record' => exact .other differs' (record'.mono grown same)
  | own record' => exact .own (record'.mono grown same)

theorem Holding.small (holding : Holding n db entries) : n < 2 ^ 60 := by
  have present := holding.table_present
  have limit := holding.size_lt
  simp only [sizeofHeader, sizeofDbid, offLimit] at present limit
  omega

/-! ## Lookups -/

/-- A word of the header or the table. -/
theorem Holding.inside {off : Nat} (holding : Holding n db entries) (inTable : off + 8 ≤ sizeofHeader + sizeofDbid * n) :
    off + sizeofDbid ≤ db.mapSize ∧ off + sizeofDbid ≤ db.file.size := by
  have present := holding.table_present
  rw [holding.mapSize]
  exact ⟨inTable, le_trans inTable present⟩

theorem Holding.dbGet_eq (holding : Holding n db entries) (fuel id : Nat) :
    dbGet fuel db id .succeed =
      if db.bucket (id % n) = dbidFree then .ok none
      else loop .fuel (findStep db.file id .succeed) fuel (0, db.bucket (id % n)) := by
  have inTable := bucketOff_lt (Nat.mod_lt id holding.positive)
  have nonzero : n ≠ 0 := Nat.ne_of_gt holding.positive
  have loadNum : db.load 8 = .ok n := by
    rw [← holding.numBuckets]
    exact load_mapped (mapped_inside (holding.inside (by simp only [sizeofHeader]; omega)))
  have loadBucket : db.load (bucketOff (id % n)) = .ok (db.bucket (id % n)) :=
    load_mapped (mapped_inside (holding.inside inTable))
  have lock : GetCalls.succeed.rdlock = true := rfl
  simp only [dbGet, lock, Bool.not_true, Bool.false_eq_true, ↓reduceIte, loadNum, bind, Except.bind, nonzero, loadBucket]
  rfl

/-- A search that comes to a record says what is in it, or that it is not the one. -/
theorem HasRecord.find {id offset : Nat} (record : HasRecord file n id offset val) (limit : file.size < offLimit)
    (small : n < 2 ^ 60) (wanted : Nat) :
    Returns (loop .fuel (findStep file wanted .succeed) · (0, offset)) (if id = wanted then some val else none) := by
  obtain ⟨known, past, inside, short, holds⟩ := record
  obtain ⟨vlen, idField, last, value⟩ := holds_record holds (by omega) short
  have read : readHeader file offset .full = some (recordAt file offset) := readHeader_whole (by omega) limit
  have position : (offset + recHdrSize) % 2 ^ 64 = offset + recHdrSize := by
    simp only [offLimit] at limit
    exact Nat.mod_eq_of_lt (by omega)
  have bytes : pread file (offset + recHdrSize) val.length .full = some val := by
    rw [pread_of_full (by omega) (by omega), value]
  apply Returns.loop_done
  by_cases found : id = wanted
  · simp only [findStep, GetCalls.succeed, read, idField, vlen, found, position, bytes, Bool.not_true,
      Bool.false_eq_true, ↓reduceIte]
  · simp [findStep, GetCalls.succeed, read, idField, last, found]

/-- At the end of the file there is nothing to read. -/
theorem find_ahead (file : Image) (wanted : Nat) :
    Returns (loop .fuel (findStep file wanted .succeed) · (0, file.size)) none := by
  apply Returns.loop_done
  have nothing : readHeader file file.size .full = none := by
    cases read : readHeader file file.size .full with
    | none => rfl
    | some record =>
      have inside := (readHeader_some read).2.1
      simp only [recHdrSize, offsetofOffset] at inside
      omega
  simp [findStep, GetCalls.succeed, nothing]

/-- A lookup finds what is held for its id. -/
theorem Holding.get (holding : Holding n db entries) (id : Nat) :
    Returns (dbGet · db id .succeed) entries[id]?.join := by
  have inRange := Nat.mod_lt id holding.positive
  have few := holding.few
  simp only [holding.dbGet_eq]
  cases found : entries[id % n]? with
  | none =>
    have late := List.getElem?_eq_none_iff.mp found
    have past : entries[id]? = none := List.getElem?_eq_none_iff.mpr (le_trans late (Nat.mod_le _ _))
    rw [past]
    simp only [if_pos (holding.unused _ inRange late)]
    exact .const none
  | some entry =>
    -- an id above the buckets has nothing in the list, and finds the record of a smaller one
    have entry_eq : id < n → entries[id]?.join = entry := by
      intro early
      rw [Nat.mod_eq_of_lt early] at found
      rw [found]
      rfl
    have beyond : ¬ id < n → entries[id]?.join = none := by
      intro late
      rw [List.getElem?_eq_none_iff.mpr (by omega)]
      rfl
    have none_of_none : entry = none → entries[id]?.join = none := by
      intro missing
      by_cases early : id < n
      · rw [entry_eq early, missing]
      · exact beyond early
    have slot := holding.slot _ _ found
    have limit := holding.size_lt
    have notFree : ∀ {offset}, offset ≤ db.file.size → offset ≠ dbidFree := by
      intro offset inside
      have bound : offLimit < dbidFree := by decide
      omega
    generalize db.bucket (id % n) = offset at slot ⊢
    cases slot with
    | free =>
      rw [none_of_none rfl]
      simp only [if_true]
      exact .const none
    | ahead =>
      rw [none_of_none rfl]
      simp only [if_neg (notFree (Nat.le_refl _))]
      exact find_ahead db.file id
    | @other id' _ _ differs record =>
      have inside := record.inside
      have other : id' ≠ id := by
        intro same
        have known := record.known
        rw [same] at known differs
        exact differs (Nat.mod_eq_of_lt known).symm
      rw [none_of_none rfl]
      simp only [if_neg (notFree (show offset ≤ db.file.size by omega))]
      have search := record.find limit holding.small id
      rwa [if_neg other] at search
    | own record =>
      have inside := record.inside
      simp only [if_neg (notFree (show offset ≤ db.file.size by omega))]
      have search := record.find limit holding.small id
      by_cases early : id < n
      · rw [entry_eq early]
        rwa [if_pos (Nat.mod_eq_of_lt early)] at search
      · rw [beyond early]
        rwa [if_neg (by omega)] at search

/-! ## The accesses of an insertion -/

theorem getElem?_append_one {i : Nat} {entry last : Option (List UInt8)} (found : (entries ++ [last])[i]? = some entry) :
    i = entries.length ∧ entry = last ∨ i < entries.length ∧ entries[i]? = some entry := by
  rw [List.getElem?_append] at found
  split at found
  · next early => exact .inr ⟨early, found⟩
  · next late =>
    have at_last : i - entries.length = 0 := by
      by_contra more
      rw [List.getElem?_eq_none_iff.mpr (by simp; omega)] at found
      cases found
    rw [at_last] at found
    cases found
    exact .inl ⟨by omega, rfl⟩

/-- `meta->id++` -/
theorem Holding.advance (holding : Holding n db entries) (early : entries.length < n) :
    Holding n db.advance (entries ++ [none]) ∧ db.advance.bucket entries.length = dbidFree := by
  obtain ⟨positive, mapSize, present, limit, numBuckets, id, few, unused, slot⟩ := holding
  have small : entries.length + 1 < 2 ^ 64 := by
    simp only [sizeofHeader, sizeofDbid, offLimit] at present limit
    omega
  have size : db.advance.file.size = db.file.size := by
    simp only [sizeofHeader] at present
    exact advance_size (by omega)
  have free : db.advance.bucket entries.length = dbidFree := by
    rw [advance_bucket]
    exact unused _ early (Nat.le_refl _)
  refine ⟨⟨positive, mapSize, by rwa [size], by rwa [size], ?_, ?_, ?_, fun i inRange late => ?_,
    fun i entry found => ?_⟩, free⟩
  · rw [advance_numBuckets, numBuckets]
  · rw [advance_id, id, Nat.mod_eq_of_lt small]
    simp
  · rw [List.length_append]
    exact early
  · rw [advance_bucket]
    exact unused i inRange (by simp at late; omega)
  · obtain ⟨rfl, rfl⟩ | ⟨-, before⟩ := getElem?_append_one found
    · rw [free]
      exact .free
    · rw [advance_bucket]
      refine (slot i entry before).congr size fun k past _ => advance_byte ?_
      simp only [sizeofHeader] at past
      omega

/-- The bucket is filled with the end of the file. -/
theorem Holding.fill {id : Nat} (holding : Holding n db (entries ++ [none])) (isLast : id = entries.length) :
    Holding n (db.setBucket id db.file.size) (entries ++ [none]) ∧
      (db.setBucket id db.file.size).bucket id = (db.setBucket id db.file.size).file.size := by
  subst isLast
  obtain ⟨positive, mapSize, present, limit, numBuckets, id, few, unused, slot⟩ := holding
  have inTable : bucketOff entries.length + 8 ≤ sizeofHeader + sizeofDbid * n := bucketOff_lt (by simp at few; omega)
  have size : (db.setBucket entries.length db.file.size).file.size = db.file.size := setBucket_size (by omega)
  have filled : (db.setBucket entries.length db.file.size).bucket entries.length = db.file.size := by
    simp only [offLimit] at limit
    exact setBucket_bucket (by omega)
  refine ⟨⟨positive, mapSize, by rwa [size], by rwa [size], ?_, ?_, few, fun i inRange late => ?_,
    fun i entry found => ?_⟩, by rw [filled, size]⟩
  · rw [← numBuckets]
    exact setBucket_header (le_refl _)
  · rw [← id]
    exact setBucket_header (by decide)
  · rw [setBucket_bucket_ne (by simp at late; omega)]
    exact unused i inRange late
  · obtain ⟨rfl, rfl⟩ | ⟨before, -⟩ := getElem?_append_one found
    · rw [filled, ← size]
      exact .ahead
    · rw [setBucket_bucket_ne (by omega)]
      refine (slot i entry found).congr size fun k past _ => Image.write_byte_outside ?_
      rw [leBytes_length]
      omega

/-- The record is written where the bucket points. -/
theorem Holding.append {id : Nat} (holding : Holding n db (entries ++ [none])) (isLast : id = entries.length)
    (ahead : db.bucket id = db.file.size) (short : val.length < 2 ^ 32)
    (room : db.file.size + (recHdrSize + val.length) < offLimit) :
    Holding n { db with file := db.file.write db.file.size (recordBytes val id) } (entries ++ [some val]) := by
  subst isLast
  obtain ⟨positive, mapSize, present, limit, numBuckets, id, few, unused, slot⟩ := holding
  have size : (db.file.write db.file.size (recordBytes val entries.length)).size =
      db.file.size + (recHdrSize + val.length) := append_size (Nat.le_add_right _ _)
  have same : SameTable n db.file (db.file.write db.file.size (recordBytes val entries.length)) := .write present
  have old : ∀ k, sizeofHeader + sizeofDbid * n ≤ k → k < db.file.size →
      (db.file.write db.file.size (recordBytes val entries.length)).byte k = db.file.byte k :=
    fun k _ before => Image.write_byte_outside (.inl before)
  have early : entries.length < n := by
    rw [List.length_append] at few
    exact few
  have record : HasRecord (db.file.write db.file.size (recordBytes val entries.length)) n entries.length db.file.size val :=
    ⟨early, present, Nat.le_of_eq size.symm, short, Image.holds_write⟩
  refine ⟨positive, mapSize, by dsimp only; omega, by dsimp only; omega, ?_, ?_, by simpa using few,
    fun i inRange late => ?_, fun i entry found => ?_⟩
  · exact (same.numBuckets _).trans numBuckets
  · rw [same.id]
    simpa using id
  · rw [same.bucket _ inRange]
    exact unused i inRange (by simpa using late)
  · obtain ⟨rfl, rfl⟩ | ⟨before, earlier⟩ := getElem?_append_one found
    · rw [same.bucket _ early, ahead]
      exact .own record
    · have inOld : (entries ++ [none])[i]? = some entry := by
        rw [List.getElem?_append_left before]
        exact earlier
      rw [same.bucket _ (by omega)]
      exact (slot i entry inOld).append (Nat.ne_of_gt before) record Image.le_write_size old

/-- Where an insertion can be, and what the database holds there: the new id is handed out first, and
has no record until the last access. -/
inductive Inserting (n : Nat) (entries : List (Option (List UInt8))) : InsertPc → Db → Prop where
  | readId {db : Db} (holding : Holding n db entries) : Inserting n entries .readId db
  | writeId {db : Db} (holding : Holding n db entries) : Inserting n entries (.writeId entries.length) db
  | readNumBuckets {db : Db} (holding : Holding n db (entries ++ [none]))
      (free : db.bucket entries.length = dbidFree) : Inserting n entries (.readNumBuckets entries.length) db
  | readSize {db : Db} (holding : Holding n db (entries ++ [none])) (free : db.bucket entries.length = dbidFree) :
      Inserting n entries (.readSize entries.length entries.length) db
  | readBucket {db : Db} (holding : Holding n db (entries ++ [none])) (free : db.bucket entries.length = dbidFree) :
      Inserting n entries (.readBucket entries.length entries.length db.file.size) db
  | fillBucket {db : Db} (holding : Holding n db (entries ++ [none])) :
      Inserting n entries (.fillBucket entries.length entries.length db.file.size) db
  | writeRecord {db : Db} (holding : Holding n db (entries ++ [none]))
      (ahead : db.bucket entries.length = db.file.size) :
      Inserting n entries (.writeRecord entries.length db.file.size) db

/-- The accesses that an insertion into an empty bucket has ahead of it. -/
def InsertPc.left : InsertPc → Nat
  | .readId => 7
  | .writeId _ => 6
  | .readNumBuckets _ => 5
  | .readSize _ _ => 4
  | .readBucket _ _ _ => 3
  | .fillBucket _ _ _ => 2
  | _ => 1

theorem Inserting.holding {pc : InsertPc} (inserting : Inserting n entries pc db) :
    Holding n db entries ∨ Holding n db (entries ++ [none]) := by
  cases inserting with
  | readId holding => exact .inl holding
  | writeId holding => exact .inl holding
  | readNumBuckets holding => exact .inr holding
  | readSize holding => exact .inr holding
  | readBucket holding => exact .inr holding
  | fillBucket holding => exact .inr holding
  | writeRecord holding => exact .inr holding

/-- One access of an insertion: it goes on to the next one, or the record has been written. -/
theorem Inserting.step {pc : InsertPc} (inserting : Inserting n entries pc db) (early : entries.length < n)
    (short : val.length < 2 ^ 32) (room : db.file.size + (recHdrSize + val.length) < offLimit) :
    (∃ pc' db', insertStep val .succeed (pc, db) = .ok (.again (pc', db')) ∧ Inserting n entries pc' db' ∧
      pc'.left < pc.left ∧ db'.file.size = db.file.size) ∨
    ∃ db', insertStep val .succeed (pc, db) = .ok (.done (.inserted .ok (some entries.length), db')) ∧
      Holding n db' (entries ++ [some val]) ∧ db'.file.size = db.file.size + (recHdrSize + val.length) := by
  have header : sizeofHeader ≤ sizeofHeader + sizeofDbid * n := Nat.le_add_right _ _
  simp only [sizeofHeader] at header
  cases inserting with
  | readId holding =>
    have load : db.load 0 = .ok entries.length := by
      rw [← holding.id]
      exact load_mapped (mapped_inside (holding.inside (by simp only [sizeofHeader]; omega)))
    exact .inl ⟨_, db, by simp only [insertStep, load]; rfl, .writeId holding, by simp [InsertPc.left], rfl⟩
  | writeId holding =>
    obtain ⟨advanced, free⟩ := holding.advance early
    have store : db.store 0 ((entries.length + 1) % 2 ^ 64) = .ok db.advance := by
      have inHeader : 0 + sizeofDbid ≤ db.mapSize ∧ 0 + sizeofDbid ≤ db.file.size :=
        holding.inside (by simp only [sizeofHeader]; omega)
      rw [← holding.id]
      exact store_mapped (mapped_inside inHeader) inHeader.2 _
    have size : db.advance.file.size = db.file.size := by
      have present := holding.table_present
      simp only [sizeofHeader] at present
      exact advance_size (by omega)
    exact .inl ⟨_, db.advance, by simp only [insertStep, store]; rfl, .readNumBuckets advanced free, by simp [InsertPc.left],
      size⟩
  | readNumBuckets holding free =>
    have load : db.load 8 = .ok n := by
      rw [← holding.numBuckets]
      exact load_mapped (mapped_inside (holding.inside (by simp only [sizeofHeader]; omega)))
    have index : entries.length % n = entries.length := Nat.mod_eq_of_lt early
    have nonzero : n ≠ 0 := by omega
    have taken : insertStep val .succeed (.readNumBuckets entries.length, db) =
        .ok (.again (.readSize entries.length entries.length, db)) := by
      simp only [insertStep, load, bind, Except.bind, if_neg nonzero, index]
      rfl
    exact .inl ⟨_, db, taken, .readSize holding free, by simp [InsertPc.left], rfl⟩
  | readSize holding free => exact .inl ⟨_, db, rfl, .readBucket holding free, by simp [InsertPc.left], rfl⟩
  | readBucket holding free =>
    have load : db.load (bucketOff entries.length) = .ok dbidFree := by
      rw [← free]
      exact load_mapped (mapped_inside (holding.inside (bucketOff_lt early)))
    have taken : insertStep val .succeed (.readBucket entries.length entries.length db.file.size, db) =
        .ok (.again (.fillBucket entries.length entries.length db.file.size, db)) := by
      simp only [insertStep, load, bind, Except.bind, if_true]
      rfl
    exact .inl ⟨_, db, taken, .fillBucket holding, by simp [InsertPc.left], rfl⟩
  | fillBucket holding =>
    obtain ⟨filled, ahead⟩ := holding.fill rfl
    have inTable := bucketOff_lt early
    have store : db.store (bucketOff entries.length) db.file.size = .ok (db.setBucket entries.length db.file.size) :=
      store_mapped (mapped_inside (holding.inside inTable)) (holding.inside inTable).2 _
    have size : (db.setBucket entries.length db.file.size).file.size = db.file.size :=
      setBucket_size (le_trans inTable holding.table_present)
    have next := Inserting.writeRecord filled ahead
    rw [size] at next
    exact .inl ⟨_, _, by simp only [insertStep, store]; rfl, next, by simp [InsertPc.left], size⟩
  | writeRecord holding ahead =>
    have written : insertStep val .succeed (.writeRecord entries.length db.file.size, db) =
        .ok (.done (finishInsert db val entries.length db.file.size .succeed).seen) := rfl
    rw [finishInsert_succeed _ _ room] at written
    exact .inr ⟨_, written, holding.append rfl ahead short room, append_size (Nat.le_add_right _ _)⟩

/-! ## Whole insertions, and cut ones -/

/-- One access after the other. -/
def Accesses (val : List UInt8) (before after : InsertPc × Db) : Prop :=
  insertStep val .succeed before = .ok (.again after)

/-- What an insertion leaves behind when it is killed, before any of its accesses or behind the last. -/
inductive LeftBy (val : List UInt8) (db : Db) : Db → Prop where
  | inside {pc : InsertPc} {db' : Db} (run : Relation.ReflTransGen (Accesses val) (.readId, db) (pc, db')) :
      LeftBy val db db'
  | finished {pc : InsertPc} {db₁ db' : Db} {result : Result}
      (run : Relation.ReflTransGen (Accesses val) (.readId, db) (pc, db₁))
      (last : insertStep val .succeed (pc, db₁) = .ok (.done (result, db'))) : LeftBy val db db'

section Whole

variable (early : entries.length < n) (short : val.length < 2 ^ 32)
  (room : db.file.size + (recHdrSize + val.length) < offLimit)

include early short room

/-- Up to the last access the file has its old size. -/
theorem Inserting.run {state state' : InsertPc × Db} (inserting : Inserting n entries state.1 state.2)
    (size : state.2.file.size = db.file.size) (run : Relation.ReflTransGen (Accesses val) state state') :
    Inserting n entries state'.1 state'.2 ∧ state'.2.file.size = db.file.size := by
  induction run with
  | refl => exact ⟨inserting, size⟩
  | tail _ taken ih =>
    obtain ⟨inserting, size⟩ := ih
    obtain ⟨pc, db', step, next, -, same⟩ | ⟨db', step, -⟩ := inserting.step early short (by rwa [size])
    · cases step.symm.trans taken
      exact ⟨next, same.trans size⟩
    · cases step.symm.trans taken

/-- An insertion that is killed has handed out no id, or one that finds the paste or nothing. -/
theorem Holding.killed (holding : Holding n db entries) (left : LeftBy val db db') :
    ∃ more, (more = [] ∨ more = [none] ∨ more = [some val]) ∧ Holding n db' (entries ++ more) ∧
      db'.file.size ≤ db.file.size + (recHdrSize + val.length) := by
  cases left with
  | inside run =>
    obtain ⟨inserting, size⟩ := Inserting.run early short room (.readId holding) rfl run
    have bound : db'.file.size ≤ db.file.size + (recHdrSize + val.length) := by
      dsimp only at size
      omega
    obtain before | after := inserting.holding
    · exact ⟨[], .inl rfl, by simpa using before, bound⟩
    · exact ⟨[none], .inr (.inl rfl), after, bound⟩
  | finished run last =>
    obtain ⟨inserting, size⟩ := Inserting.run early short room (.readId holding) rfl run
    obtain ⟨pc, db₂, step, -⟩ | ⟨db₂, step, after, grown⟩ := inserting.step early short (by rwa [size])
    · cases step.symm.trans last
    · cases step.symm.trans last
      rw [size] at grown
      exact ⟨[some val], .inr (.inr rfl), after, Nat.le_of_eq grown⟩

/-- An insertion that is not killed hands out the next id. -/
theorem Holding.insert (holding : Holding n db entries) :
    ∃ res, Returns (dbInsert · db val .succeed) res ∧ res.ret = .ok ∧ res.result = some entries.length ∧
      Holding n res.db (entries ++ [some val]) ∧ res.db.file.size = db.file.size + (recHdrSize + val.length) := by
  -- the accesses come to an end
  have within : ∃ result, loop .fuel (insertStep val .succeed) 8 (.readId, db) = .ok result := by
    refine loop_within (fun bound (state : InsertPc × Db) => Inserting n entries state.1 state.2 ∧
      state.2.file.size = db.file.size ∧ state.1.left = bound) (fun bound state here => ?_)
      ⟨.readId holding, rfl, rfl⟩ (Nat.lt_succ_self 7)
    obtain ⟨inserting, size, rfl⟩ := here
    obtain ⟨pc, db', step, next, fewer, same⟩ | ⟨db', step, -⟩ := inserting.step early short (by rwa [size])
    · exact .inr ⟨(pc, db'), _, step, fewer, next, same.trans size, rfl⟩
    · exact .inl ⟨_, step⟩
  obtain ⟨result, ended⟩ := within
  have returns : ∀ fuel, 8 ≤ fuel → ∃ res, dbInsert fuel db val .succeed = .ok res ∧ result = res.seen :=
    fun fuel enough => insert_alone rfl (loop_mono ended enough)
  -- and the last of them has written the record
  have outcome : ∀ fuel state, Inserting n entries state.1 state.2 → state.2.file.size = db.file.size →
      loop .fuel (insertStep val .succeed) fuel state = .ok result →
      ∃ db', result = (.inserted .ok (some entries.length), db') ∧ Holding n db' (entries ++ [some val]) ∧
        db'.file.size = db.file.size + (recHdrSize + val.length) := by
    intro fuel
    induction fuel with
    | zero =>
      intro state _ _ ended
      cases ended
    | succ fuel ih =>
      intro state inserting size ended
      obtain ⟨pc, db', step, next, -, same⟩ | ⟨db', step, after, grown⟩ := inserting.step early short (by rwa [size])
      · rw [loop, step] at ended
        exact ih (pc, db') next (same.trans size) ended
      · rw [loop, step] at ended
        cases ended
        exact ⟨db', rfl, after, by rw [grown, size]⟩
  obtain ⟨db', rfl, after, grown⟩ := outcome 8 (.readId, db) (.readId holding) rfl ended
  refine ⟨⟨db', .ok, some entries.length⟩, ⟨8, fun fuel enough => ?_⟩, rfl, rfl, after, grown⟩
  obtain ⟨⟨db₁, ret, number⟩, returned, same⟩ := returns fuel enough
  simp only [InsertResult.seen, Prod.mk.injEq, Result.inserted.injEq] at same
  obtain ⟨⟨rfl, rfl⟩, rfl⟩ := same
  exact returned

end Whole

/-! ## The life of a database -/

/-- A database that was created with `n` buckets, with the pastes whose ids were handed out, and all
whose insertions were begun: some of them were killed, and the server was started again. -/
inductive Lives (n : Nat) : Db → List (Nat × List UInt8) → List (List UInt8) → Prop where
  | created {db : Db} {calls : OpenCalls} {disk : Option Image}
      (created : openDb none ⟨n⟩ calls = .ok (some db, disk)) : Lives n db [] []
  | inserted {db : Db} {acked : List (Nat × List UInt8)} {begun : List (List UInt8)} {val : List UInt8}
      {res : InsertResult} {id : Nat} (before : Lives n db acked begun)
      (returned : Returns (dbInsert · db val .succeed) res) (ok : res.ret = .ok) (number : res.result = some id) :
      Lives n res.db (acked ++ [(id, val)]) (begun ++ [val])
  | killed {db db₁ db' : Db} {acked : List (Nat × List UInt8)} {begun : List (List UInt8)} {val : List UInt8}
      {params : DbParams} {calls : OpenCalls} {disk : Option Image} (before : Lives n db acked begun)
      (left : LeftBy val db db₁) (opened : openDb (some (closeDb db₁)) params calls = .ok (some db', disk)) :
      Lives n db' acked (begun ++ [val])
  | reopened {db db' : Db} {acked : List (Nat × List UInt8)} {begun : List (List UInt8)}
      {params : DbParams} {calls : OpenCalls} {disk : Option Image} (before : Lives n db acked begun)
      (opened : openDb (some (closeDb db)) params calls = .ok (some db', disk)) : Lives n db' acked begun

/-- What was handed out is held, under ids that differ, and nothing that was not begun. -/
structure Backed (n : Nat) (db : Db) (acked : List (Nat × List UInt8)) (begun : List (List UInt8))
    (entries : List (Option (List UInt8))) : Prop where
  holding : Holding n db entries
  size : db.file.size ≤ sizeofHeader + sizeofDbid * n + recordSpace begun
  count : entries.length ≤ begun.length
  held : ∀ ack ∈ acked, entries[ack.1]? = some (some ack.2)
  distinct : (acked.map Prod.fst).Nodup
  brought : ∀ val, some val ∈ entries → val ∈ begun

section Lives

variable {acked : List (Nat × List UInt8)} {begun : List (List UInt8)}

theorem Backed.below (backed : Backed n db acked begun entries) :
    ∀ id ∈ acked.map Prod.fst, id < entries.length := by
  intro id member
  obtain ⟨ack, listed, rfl⟩ := List.mem_map.mp member
  exact (List.getElem?_eq_some_iff.mp (backed.held ack listed)).1

theorem recordSpace_append (begun : List (List UInt8)) (val : List UInt8) :
    recordSpace (begun ++ [val]) = recordSpace begun + (recHdrSize + val.length) := by
  simp [recordSpace]

/-- More entries, of one insertion that was begun. -/
theorem Backed.more {more : List (Option (List UInt8))} (backed : Backed n db acked begun entries)
    (holding : Holding n db' (entries ++ more)) (size : db'.file.size ≤ db.file.size + (recHdrSize + val.length))
    (one : more = [] ∨ more = [none] ∨ more = [some val]) : Backed n db' acked (begun ++ [val]) (entries ++ more) := by
  have bound := backed.size
  have count := backed.count
  refine ⟨holding, ?_, ?_, fun ack member => ?_, backed.distinct, fun other member => ?_⟩
  · rw [recordSpace_append]
    omega
  · have short : more.length ≤ 1 := by
      obtain rfl | rfl | rfl := one
      · exact Nat.zero_le 1
      · exact Nat.le_refl 1
      · exact Nat.le_refl 1
    rw [List.length_append, List.length_append, List.length_singleton]
    omega
  · have found := backed.held ack member
    rwa [List.getElem?_append_left (List.getElem?_eq_some_iff.mp found).1]
  · obtain old | new := List.mem_append.mp member
    · exact List.mem_append_left _ (backed.brought other old)
    · obtain rfl | rfl | rfl := one
      · cases new
      · simp at new
      · simp only [List.mem_singleton, Option.some.injEq] at new
        rw [new]
        exact List.mem_append_right _ (List.mem_singleton_self _)

theorem Holding.reopened {params : DbParams} {calls : OpenCalls} {disk : Option Image} (holding : Holding n db entries)
    (opened : openDb (some (closeDb db)) params calls = .ok (some db', disk)) : db' = db := by
  refine openDb_again ?_ opened
  have small := holding.small
  have num : db.file.readNat 8 8 = n := holding.numBuckets
  rw [num, holding.mapSize, tableEnd]
  simp only [sizeofHeader, sizeofDbid]
  omega

theorem Lives.backed (lives : Lives n db acked begun) (positive : 1 ≤ n) (few : begun.length ≤ n)
    (short : ∀ val ∈ begun, val.length < 2 ^ 32)
    (fits : sizeofHeader + sizeofDbid * n + recordSpace begun < offLimit) :
    ∃ entries, Backed n db acked begun entries := by
  induction lives with
  | created created =>
    have limit : offLimit < 2 ^ 64 := by decide
    have small : sizeofHeader + sizeofDbid * n < 2 ^ 64 := by omega
    obtain ⟨rfl, inside⟩ := openDb_created small created
    obtain ⟨positive, mapSize, present, size, num, id, unused, -⟩ := fresh_sound positive inside
    refine ⟨[], ⟨positive, mapSize, present, size, num, id, Nat.zero_le _, unused, by simp⟩, ?_, Nat.le_refl _, by simp,
      List.nodup_nil, by simp⟩
    simp [freshFile_size, recordSpace]
  | @inserted db acked begun val res id _ returned ok number ih =>
    rw [recordSpace_append] at fits
    rw [List.length_append, List.length_singleton] at few
    obtain ⟨entries, backed⟩ := ih (by omega) (fun val member => short val (List.mem_append_left _ member)) (by omega)
    have size := backed.size
    have count := backed.count
    have here := short val (List.mem_append_right _ (List.mem_singleton_self _))
    obtain ⟨res', returned', -, number', after, grown⟩ :=
      backed.holding.insert (by omega) here (show _ < offLimit by omega)
    cases returned.unique returned'
    cases number.symm.trans number'
    have more := backed.more after (Nat.le_of_eq grown) (.inr (.inr rfl))
    refine ⟨_, more.holding, more.size, more.count, fun ack member => ?_, ?_, more.brought⟩
    · obtain old | new := List.mem_append.mp member
      · exact more.held ack old
      · rw [List.mem_singleton.mp new]
        simp
    · -- the new id is above all others
      rw [List.map_append, List.map_singleton]
      refine List.nodup_append.mpr ⟨backed.distinct, by simp, fun id old id' new => ?_⟩
      rw [List.mem_singleton.mp new]
      exact Nat.ne_of_lt (backed.below id old)
  | @killed db db₁ db' acked begun val params calls disk _ left opened ih =>
    rw [recordSpace_append] at fits
    rw [List.length_append, List.length_singleton] at few
    obtain ⟨entries, backed⟩ := ih (by omega) (fun val member => short val (List.mem_append_left _ member)) (by omega)
    have size := backed.size
    have count := backed.count
    have here := short val (List.mem_append_right _ (List.mem_singleton_self _))
    obtain ⟨more, one, after, grown⟩ := backed.holding.killed (by omega) here (show _ < offLimit by omega) left
    rw [after.reopened opened]
    exact ⟨_, backed.more after grown one⟩
  | reopened _ opened ih =>
    obtain ⟨entries, backed⟩ := ih few short fits
    rw [backed.holding.reopened opened]
    exact ⟨entries, backed⟩

/-- As long as no bucket is used twice and the file stays within its limit, a paste whose id was handed
out is found under it whatever insertions are killed, at whatever access, before and after it.  A lookup
finds only what an insertion brought whole, and the next insertion hands out a new id. -/
theorem acknowledged_survive (lives : Lives n db acked begun) (positive : 1 ≤ n) (few : begun.length ≤ n)
    (short : ∀ val ∈ begun, val.length < 2 ^ 32)
    (fits : sizeofHeader + sizeofDbid * n + recordSpace begun < offLimit) :
    (∀ id val, (id, val) ∈ acked → Returns (dbGet · db id .succeed) (some val)) ∧
      (acked.map Prod.fst).Nodup ∧
      (∀ id, ∃ entry, Returns (dbGet · db id .succeed) entry ∧ ∀ val, entry = some val → val ∈ begun) ∧
      ∀ val : List UInt8, begun.length < n → val.length < 2 ^ 32 →
        sizeofHeader + sizeofDbid * n + recordSpace (begun ++ [val]) < offLimit →
        ∃ res id, Returns (dbInsert · db val .succeed) res ∧ res.ret = .ok ∧ res.result = some id ∧
          id ∉ acked.map Prod.fst := by
  obtain ⟨entries, backed⟩ := lives.backed positive few short fits
  refine ⟨fun id val member => ?_, backed.distinct, fun id => ⟨_, backed.holding.get id, fun val found => ?_⟩,
    fun val early small room => ?_⟩
  · have found := backed.holding.get id
    rwa [backed.held _ member] at found
  · apply backed.brought
    have member := Option.join_eq_some_iff.mp found
    exact List.mem_of_getElem? member
  · rw [recordSpace_append] at room
    have size := backed.size
    have count := backed.count
    obtain ⟨res, returned, ok, number, -⟩ := backed.holding.insert (by omega) small (show _ < offLimit by omega)
    refine ⟨res, _, returned, ok, number, fun member => ?_⟩
    exact Nat.lt_irrefl _ (backed.below _ member)

/-- A database with two buckets whose first insertion is killed when it has taken its id. -/
theorem lives_killed : ∃ db, Lives 2 db [] [[0x61]] := by
  have created : openDb none ⟨2⟩ .succeed = .ok (some ⟨freshFile 2, 32⟩, some (freshFile 2)) := openDb_fresh (by decide)
  have first : Accesses [0x61] (.readId, ⟨freshFile 2, 32⟩) (.writeId 0, ⟨freshFile 2, 32⟩) := by rfl
  have second : Accesses [0x61] (.writeId 0, ⟨freshFile 2, 32⟩) (.readNumBuckets 0, Db.advance ⟨freshFile 2, 32⟩) := by
    rfl
  have opened : openDb (some (closeDb (Db.advance ⟨freshFile 2, 32⟩))) ⟨2⟩ .succeed =
      .ok (some (Db.advance ⟨freshFile 2, 32⟩), some (Db.advance ⟨freshFile 2, 32⟩).file) :=
    reopen_same (by decide) (by decide) (by decide) ⟨2⟩
  exact ⟨_, .killed (.created created) (.inside ((Relation.ReflTransGen.single first).tail second)) opened⟩

/-- The next one is not. -/
theorem acknowledged_survive_kill : ∃ db id, Lives 2 db [(id, [0x62])] [[0x61], [0x62]] ∧
    Returns (dbGet · db id .succeed) (some [0x62]) := by
  obtain ⟨db, lives⟩ := lives_killed
  obtain ⟨-, -, -, next⟩ := acknowledged_survive lives (by decide) (by decide) (by decide) (by decide)
  obtain ⟨res, id, returned, ok, number, -⟩ := next [0x62] (by decide) (by decide) (by decide)
  have after : Lives 2 res.db [(id, [0x62])] [[0x61], [0x62]] := lives.inserted returned ok number
  have found := (acknowledged_survive after (by decide) (by decide) (by decide) (by decide)).1 id [0x62] (by simp)
  exact ⟨res.db, id, after, found⟩

end Lives

end Cask.Database
