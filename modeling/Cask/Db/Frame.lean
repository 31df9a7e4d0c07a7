import Cask.Db.AllOrNothing

/-! # The bytes an insertion changes

A successful insertion should touch nothing below the old end of the file but the id
counter and one link: the slot of an empty bucket, or the `next` field of the last record
of the chain.  The link of a bucket in use is written eight bytes further on, over the
first bytes of the last record's value and whatever follows it.  `framed_iff` says that
the insertion into a bucket in use is right only when the bytes it overwrites are the
ones it writes.  The slot of an empty bucket can be part of a record as well, when the size
of the table has wrapped around and the header counts buckets behind the table.
-/

namespace Cask.Database

open Storage Fuel

variable {db : Db} {records : List (Nat × List UInt8)} {val : List UInt8} {calls : InsertCalls}
  {fuel : Nat} {res : InsertResult}

/-! ## The property -/

/-- The states reached from a fresh file by insertions of non-empty values that returned `OK`, with
the offset and the value of every record.  The outcomes of the calls are free, but `fstat` works. -/
inductive Grown : Db → List (Nat × List UInt8) → Prop where
  | created {n : Nat} {calls : OpenCalls} {db : Db} {disk : Option Image} (positive : 1 ≤ n)
      (created : openDb none ⟨n⟩ calls = .ok (some db, disk)) : Grown db []
  | inserted {db : Db} {records : List (Nat × List UInt8)} {val : List UInt8} {calls : InsertCalls}
      {fuel : Nat} {res : InsertResult} (before : Grown db records) (nonempty : 1 ≤ val.length)
      (lenBound : val.length < 2 ^ 32) (fstat : calls.fstat = true)
      (returned : dbInsert fuel db val calls = .ok res) (ok : res.ret = .ok) :
      Grown res.db (records ++ [(db.file.size, val)])

/-- The chain that starts at `offset` ends with the record at `last`. -/
def ChainEnd (file : Image) (offset last : Nat) : Prop :=
  Returns (lastLink file (fun _ => .full) · offset) (some last)

/-- The bytes in front of the old end of file that the insertion may change. -/
def MayChange (db : Db) (i : Nat) : Prop :=
  i < 8 ∨
    if db.bucket db.index = dbidFree then bucketOff db.index ≤ i ∧ i < bucketOff db.index + 8
    else ∃ last, ChainEnd db.file (db.bucket db.index) last ∧ last + 12 ≤ i ∧ i < last + 20

/-- The offset `i` is in the field `vlen` or `id` or in the value of the record at `offset`. -/
def InRecord (offset : Nat) (val : List UInt8) (i : Nat) : Prop :=
  offset ≤ i ∧ i < offset + 12 ∨
    offset + recHdrSize ≤ i ∧ i < offset + recHdrSize + val.length

/-- The insertion that leads from `db` to `db'` changes only what it is meant to change. -/
structure Framed (db : Db) (records : List (Nat × List UInt8)) (db' : Db) : Prop where
  bytes : ∀ i, i < db.file.size → db'.file.byte i ≠ db.file.byte i → MayChange db i
  stored : ∀ record ∈ records, ∀ i, i < db.file.size → InRecord record.1 record.2 i →
    db'.file.byte i = db.file.byte i

/-- The bytes behind the header of `last`, as far as there are any, already hold the end of file. -/
def LinkPresent (file : Image) (last : Nat) : Prop :=
  ∀ k, k < 8 → last + recHdrSize + k < file.size →
    file.byte (last + recHdrSize + k) = (leBytes 8 file.size).getD k 0

/-- The slot of the bucket already holds the end of file wherever it is part of a record. -/
def SlotClear (db : Db) (records : List (Nat × List UInt8)) : Prop :=
  ∀ record ∈ records, ∀ k, k < 8 → InRecord record.1 record.2 (bucketOff db.index + k) →
    db.file.byte (bucketOff db.index + k) = (leBytes 8 db.file.size).getD k 0

/-- The bucket is empty and its slot no part of a record, or the link that goes behind the last record
is there. -/
def LinkHarmless (db : Db) (records : List (Nat × List UInt8)) : Prop :=
  if db.bucket db.index = dbidFree then SlotClear db records
  else ∀ last, ChainEnd db.file (db.bucket db.index) last → LinkPresent db.file last

/-! ## The walk -/

/-- A walk that found its end read every header in full: it is the walk along the chain, also of a
file that differs in the id counter only. -/
theorem lastLink_chainEnd {file file' : Image} {preads : Nat → Outcome} {offset last : Nat}
    (size : file'.size = file.size) (same : ∀ i, 8 ≤ i → file'.byte i = file.byte i)
    (walked : lastLink file preads fuel offset = .ok (some last)) : ChainEnd file' offset last := by
  suffices ended : ∀ count count', loop .fuel (lastLinkStep file preads) fuel (count, offset) = .ok (some last) →
      loop .fuel (lastLinkStep file' fun _ => .full) fuel (count', offset) = .ok (some last) from
    ⟨fuel, fun more enough => loop_mono (ended 0 0 walked) enough⟩
  clear walked
  induction fuel generalizing offset with
  | zero =>
    intro _ _ walked
    cases walked
  | succ fuel ih =>
    intro count count' walked
    simp only [loop, lastLinkStep] at walked ⊢
    -- a header that was read in full is read in the other file as well
    cases read : readHeader file offset (preads count) with
    | none => simp [read] at walked
    | some record =>
      obtain ⟨proper, present, rfl⟩ := readHeader_some read
      have read' : readHeader file' offset .full = some (recordAt file' offset) := by
        rw [readHeader, pread_of_full proper (by rw [size]; exact present)]
        exact if_pos (Image.slice_length ..)
      have next : (recordAt file' offset).next = (recordAt file offset).next :=
        Image.readNat_congr fun i lower _ => same i (by omega)
      simp only [read, read', next] at walked ⊢
      by_cases free : (recordAt file offset).next = dbidFree
      · simpa only [free, ne_eq, not_true_eq_false, if_false] using walked
      · simp only [free, ne_eq, not_false_eq_true, if_true] at walked ⊢
        exact ih _ _ walked

/-! ## One insertion -/

/-- `db'` agrees with `linked` in front of the old end of file. -/
structure GrownFrom (db : Db) (linked : Image) (db' : Db) : Prop where
  mapSize : db'.mapSize = db.mapSize
  size : db.file.size ≤ db'.file.size
  bytes : ∀ i, i < db.file.size → db'.file.byte i = linked.byte i

theorem finishInsert_grown {linked : Image} {id : Nat} (larger : db.file.size ≤ linked.size) :
    GrownFrom db linked (finishInsert ⟨linked, db.mapSize⟩ val id db.file.size calls).db := by
  rw [finishInsert_eq]
  cases calls.recordCount db.file.size val.length with
  | none => exact ⟨rfl, larger, fun _ _ => rfl⟩
  | some count =>
    exact ⟨rfl, le_trans larger Image.le_write_size,
      fun i below => Image.write_byte_outside (.inl below)⟩

theorem linkAndFinish_grown {last id : Nat} (limit : db.file.size < offLimit)
    (present : last + recHdrSize ≤ db.file.size) (size : db.advance.file.size = db.file.size)
    (ok : (linkAndFinish db.advance val id db.file.size calls (some last)).ret = .ok) :
    GrownFrom db (db.advance.file.write (last + recHdrSize) (leBytes 8 db.file.size))
      (linkAndFinish db.advance val id db.file.size calls (some last)).db := by
  have small : (last + offsetofOffset) % 2 ^ 64 = last + recHdrSize := by
    simp only [offLimit] at limit
    exact Nat.mod_eq_of_lt (by simp only [recHdrSize] at present; omega)
  simp only [linkAndFinish, small, pwrite, leBytes_length] at ok ⊢
  cases moved : calls.linkWrite.written (last + recHdrSize) 8 with
  | none => simp [moved] at ok
  | some count =>
    -- a short link write is an error
    by_cases full : count = 8
    · have whole : (leBytes 8 db.file.size).take 8 = leBytes 8 db.file.size :=
        List.take_of_length_le (by simp)
      simp only [full, sizeofDbid, if_true, whole]
      exact finishInsert_grown (le_trans (le_of_eq size.symm) Image.le_write_size)
    · simp [moved, full, sizeofDbid] at ok

/-- A successful insertion put its link in the slot of an empty bucket or behind the header of the
last record, and the rest of what it wrote behind the old end of file. -/
theorem dbInsert_grown (sized : Sized db.file) (fstat : calls.fstat = true)
    (returned : dbInsert fuel db val calls = .ok res) (ok : res.ret = .ok) :
    db.bucket db.index = dbidFree ∧
        GrownFrom db (db.advance.setBucket db.index db.file.size).file res.db ∨
      db.bucket db.index ≠ dbidFree ∧
        ∃ last, ChainEnd db.file (db.bucket db.index) last ∧
          GrownFrom db (db.advance.file.write (last + recHdrSize) (leBytes 8 db.file.size)) res.db := by
  have pos : getFileSize db.file calls.fstat = db.file.size := by simp [getFileSize, fstat]
  obtain ⟨-, rfl⟩ | ⟨-, acc, ⟨free, rfl⟩ | ⟨taken, found, walk, rfl⟩⟩ := dbInsert_cases sized.header returned
  · cases ok
  · refine .inl ⟨free, ?_⟩
    rw [pos]
    apply finishInsert_grown
    rw [advance_setBucket_size (free_present free)]
  · have size : db.advance.file.size = db.file.size := acc.advance_size
    cases found with
    | none => cases ok
    | some last =>
      have present := (lastLink_some walk).2
      rw [size] at present
      refine .inr ⟨taken, last, ?_, ?_⟩
      · exact lastLink_chainEnd size.symm (fun i past => (advance_byte past).symm) walk
      · rw [pos] at ok ⊢
        exact linkAndFinish_grown sized.limit present size ok

/-! ## Every state -/

/-- The records lie behind the header and the table. -/
structure Behind (db : Db) (records : List (Nat × List UInt8)) : Prop where
  header : sizeofHeader ≤ db.mapSize
  table : db.mapSize ≤ db.file.size
  records : ∀ record ∈ records, db.mapSize ≤ record.1

theorem Grown.reachable (grown : Grown db records) : Reachable db := by
  induction grown with
  | created positive created => exact .created positive created
  | inserted _ _ lenBound _ returned _ ih => exact .inserted ih lenBound returned

theorem Grown.behind (grown : Grown db records) : Behind db records := by
  induction grown with
  | created _ created =>
    obtain ⟨rfl, -, -⟩ := openDb_created_wrapped created
    refine ⟨Nat.le_add_right _ _, ?_, by simp⟩
    rw [tableFile_size]
  | inserted before _ _ fstat returned ok ih =>
    obtain ⟨-, grown⟩ | ⟨-, last, -, grown⟩ :=
      dbInsert_grown before.reachable.sized fstat returned ok
    all_goals
      have mapSize := grown.mapSize
      refine ⟨by rw [mapSize]; exact ih.header, by rw [mapSize]; exact le_trans ih.table grown.size,
        fun record member => ?_⟩
      rw [mapSize]
      rcases List.mem_append.mp member with old | new
      · exact ih.records record old
      · rw [List.mem_singleton.mp new]
        exact ih.table

/-- A byte of a record is behind the header. -/
theorem Behind.past_header {record : Nat × List UInt8} {i : Nat} (behind : Behind db records)
    (member : record ∈ records) (inside : InRecord record.1 record.2 i) : 8 ≤ i := by
  have header := behind.header
  have offset := behind.records record member
  simp only [sizeofHeader] at header
  obtain ⟨lower, -⟩ | ⟨lower, -⟩ := inside <;> omega

/-- No record reaches into a slot of the table. -/
theorem Behind.slotClear (behind : Behind db records)
    (inTable : bucketOff db.index + sizeofDbid ≤ db.mapSize) : SlotClear db records := by
  intro record member k small inside
  have offset := behind.records record member
  simp only [sizeofDbid] at inTable
  obtain ⟨lower, -⟩ | ⟨lower, -⟩ := inside <;> omega

theorem framed_free_iff (behind : Behind db records) (free : db.bucket db.index = dbidFree)
    (grown : GrownFrom db (db.advance.setBucket db.index db.file.size).file res.db) :
    Framed db records res.db ↔ SlotClear db records := by
  have present : bucketOff db.index + 8 ≤ db.file.size := free_present free
  have slot : ∀ k, k < 8 →
      res.db.file.byte (bucketOff db.index + k) = (leBytes 8 db.file.size).getD k 0 := by
    intro k small
    rw [grown.bytes _ (by omega), Db.setBucket,
      Image.write_byte_inside (Nat.le_add_right _ _) (by rw [leBytes_length]; omega), Nat.add_sub_cancel_left]
  have others : ∀ i, 8 ≤ i → i < db.file.size → ¬ (bucketOff db.index ≤ i ∧ i < bucketOff db.index + 8) →
      res.db.file.byte i = db.file.byte i := by
    intro i past below outside
    rw [grown.bytes i below, Db.setBucket, Image.write_byte_outside (by rw [leBytes_length]; omega)]
    exact advance_byte past
  constructor
  · intro framed record member k small inside
    rw [← slot k small]
    exact (framed.stored record member _ (by omega) inside).symm
  · intro clear
    refine ⟨fun i below changed => ?_, fun record member i below inside => ?_⟩
    · -- besides the counter only the slot of the bucket is written
      by_contra meant
      rw [MayChange, if_pos free, not_or] at meant
      exact changed (others i (by omega) below meant.2)
    · by_cases within : bucketOff db.index ≤ i ∧ i < bucketOff db.index + 8
      · obtain ⟨k, rfl⟩ := Nat.exists_eq_add_of_le within.1
        rw [slot k (by omega), clear record member k (by omega) inside]
      · exact others i (behind.past_header member inside) below within

theorem framed_taken_iff (behind : Behind db records)
    (taken : db.bucket db.index ≠ dbidFree) {last : Nat}
    (ends : ChainEnd db.file (db.bucket db.index) last)
    (grown : GrownFrom db (db.advance.file.write (last + recHdrSize) (leBytes 8 db.file.size)) res.db) :
    Framed db records res.db ↔ LinkPresent db.file last := by
  have hdr : recHdrSize = 20 := rfl
  constructor
  · intro framed k small below
    by_contra differs
    have written : res.db.file.byte (last + recHdrSize + k) = (leBytes 8 db.file.size).getD k 0 := by
      rw [grown.bytes _ below, Image.write_byte_inside (by omega) (by rw [leBytes_length]; omega),
        Nat.add_sub_cancel_left]
    -- the byte lies behind the field that may change
    have meant := framed.bytes _ below (by rw [written]; exact Ne.symm differs)
    rw [MayChange, if_neg taken] at meant
    obtain counter | ⟨last', ends', lower, upper⟩ := meant
    · omega
    · cases ends.unique ends'
      omega
  · intro present
    have kept : ∀ i, 8 ≤ i → i < db.file.size → res.db.file.byte i = db.file.byte i := by
      intro i past below
      rw [grown.bytes i below]
      by_cases inside : last + recHdrSize ≤ i ∧ i < last + recHdrSize + 8
      · have byte := present (i - (last + recHdrSize)) (by omega) (by omega)
        rw [Nat.add_sub_cancel' inside.1] at byte
        rw [Image.write_byte_inside inside.1 (by rw [leBytes_length]; exact inside.2), byte]
      · rw [Image.write_byte_outside (by rw [leBytes_length]; omega)]
        exact advance_byte past
    refine ⟨fun i below changed => .inl ?_, fun record member i below inside =>
      kept i (behind.past_header member inside) below⟩
    by_contra counter
    exact changed (kept i (by omega) below)

/-- In every state that successful insertions lead to, a further successful insertion changes only
what it is meant to change exactly when it fills an empty bucket whose slot is no part of a record, or
when the bytes behind the header of the last record are already those of the link.  No slot of a
table that has all its buckets is part of a record. -/
theorem framed_iff (grown : Grown db records) (fstat : calls.fstat = true)
    (returned : dbInsert fuel db val calls = .ok res) (ok : res.ret = .ok) :
    (Framed db records res.db ↔ LinkHarmless db records) ∧
      (bucketOff db.index + sizeofDbid ≤ db.mapSize → SlotClear db records) := by
  refine ⟨?_, grown.behind.slotClear⟩
  obtain ⟨free, grown'⟩ | ⟨taken, last, ends, grown'⟩ :=
    dbInsert_grown grown.reachable.sized fstat returned ok
  · rw [LinkHarmless, if_pos free]
    exact framed_free_iff grown.behind free grown'
  · rw [framed_taken_iff grown.behind taken ends grown', LinkHarmless, if_neg taken]
    constructor
    · intro present last' ends'
      cases ends.unique ends'
      exact present
    · intro present
      exact present last ends

theorem oneRecord_grown : Grown oneRecord [(24, [0x61])] := by
  have fresh : Grown oneBucket [] := .created (n := 1) (le_refl _) (openDb_fresh (by decide))
  exact .inserted fresh (le_refl _) (by decide) rfl oneRecord_inserted rfl

theorem framed_iff_oneRecord :
    ∃ res, dbInsert 2 oneRecord [0x62] .succeed = .ok res ∧
      (Framed oneRecord [(24, [0x61])] res.db ↔ LinkHarmless oneRecord [(24, [0x61])]) ∧
      (bucketOff oneRecord.index + sizeofDbid ≤ oneRecord.mapSize → SlotClear oneRecord [(24, [0x61])]) := by
  obtain ⟨res, inserted, ok⟩ : ∃ res, dbInsert 2 oneRecord [0x62] .succeed = .ok res ∧ res.ret = .ok :=
    ⟨_, rfl, rfl⟩
  exact ⟨res, inserted, framed_iff oneRecord_grown rfl inserted ok⟩

/-- The link of the second record of a bucket overwrites the value of the first. -/
theorem not_framed_oneRecord :
    Grown oneRecord [(24, [0x61])] ∧
      ∃ res, dbInsert 2 oneRecord [0x62] .succeed = .ok res ∧ res.ret = .ok ∧
        ¬ Framed oneRecord [(24, [0x61])] res.db := by
  refine ⟨oneRecord_grown, _, rfl, rfl, fun framed => ?_⟩
  have kept := framed.stored (24, [0x61]) (by simp) 44 (by decide) (.inr (by decide))
  exact absurd kept (by decide)

end Cask.Database
