import Cask.Db.History

/-! # The walks along a chain end

A walk follows offsets as it finds them in the file, also from a bucket that a failed
insertion left pointing at the old end of the file.  While the size of the table fits
`size_t`, every such offset is placed and each walk ends within two reads.  A larger count
of buckets wraps the size around: the header then counts more buckets than the table has,
and a bucket behind the table is read from the bytes of the first records, up to the end
of the mapped page.  The value of a paste can lead such a walk in a circle, and an access
behind the page stops the process.
-/

namespace Cask.Database

open Storage Fuel

variable {n count : Nat} {db : Db}

/-! ## One call, whatever its calls do -/

theorem Sound.insert_returns (sound : Sound n count db) (val : List UInt8) (calls : InsertCalls) :
    ∃ res, Returns (dbInsert · db val calls) res := by
  cases lock : calls.wrlock with
  | false =>
    exact ⟨_, 0, fun fuel _ => dbInsert_unlocked lock⟩
  | true =>
    have inRange : db.index < n := by
      rw [Db.index, sound.numBuckets]
      exact Nat.mod_lt _ sound.buckets_pos
    by_cases free : db.bucket db.index = dbidFree
    · exact ⟨_, 0, fun fuel _ => dbInsert_free sound.accessible lock free⟩
    · have used := mt (sound.bucket_free_iff inRange).mpr free
      have placed := (sound.used db.index inRange (by omega)).congr
        (advance_size sound.header_present) fun i outside =>
          advance_byte (by simp only [sizeofHeader] at outside; omega)
      -- a bucket in use points at a placed record, from which the walk is short
      obtain ⟨last, walked, -⟩ := lastLink_placed placed calls.pread
      refine ⟨linkAndFinish db.advance val db.id (getFileSize db.file calls.fstat) calls last, 2,
        fun fuel enough => ?_⟩
      simp only [dbInsert_taken sound.accessible lock free, walked fuel enough, Except.map]

/-! ## Every call of a history -/

/-- After any operations, every insertion and every lookup returns and so gives the lock back, whatever
its own calls do. -/
def CallsReturn (db₀ : Db) : Prop :=
  ∀ ops, (∀ op ∈ ops, op.Allowed) → insertCount ops < 2 ^ 64 →
    ∃ later, Returns (runOps · ⟨db₀, []⟩ ops) later ∧
      (∀ val calls, ∃ res, Returns (dbInsert · later.db val calls) res) ∧
      ∀ id calls, ∃ entry, Returns (dbGet · later.db id calls) entry

theorem fresh_callsReturn (positive : 1 ≤ n) (fits : sizeofHeader + sizeofDbid * n < offLimit) :
    CallsReturn ⟨freshFile n, sizeofHeader + sizeofDbid * n⟩ := by
  intro ops allowed few
  have fresh : History.Inv n 0 ⟨⟨freshFile n, sizeofHeader + sizeofDbid * n⟩, []⟩ :=
    ⟨fresh_sound positive fits, .nil, by simp⟩
  obtain ⟨later, run, inv, -⟩ := runOps_inv fresh allowed (by omega)
  refine ⟨later, run, inv.sound.insert_returns, fun id calls => ?_⟩
  obtain ⟨entry, ended⟩ := inv.sound.get id calls
  exact ⟨entry, 2, ended⟩

/-- A lookup whose bucket is behind the mapped pages stops the process. -/
theorem get_stops {id : Nat} (calls : GetCalls) (present : sizeofHeader ≤ db.file.size)
    (nonempty : 0 < db.mapSize) (num : db.numBuckets = n) (positive : 1 ≤ n) (lock : calls.rdlock = true)
    (behind : pageEnd db.mapSize < bucketOff (id % n) + sizeofDbid) :
    Stops (dbGet · db id calls) .sigsegv := by
  have loadNum : db.load 8 = .ok n := by
    rw [← num]
    exact load_mapped (mapped_header (by decide) nonempty present)
  have loadBucket : db.load (bucketOff (id % n)) = .error .sigsegv :=
    if_neg fun mapped => absurd mapped.1 (Nat.not_le.mpr behind)
  refine ⟨0, fun fuel _ => ?_⟩
  simp only [dbGet, lock, Bool.not_true, Bool.false_eq_true, if_false, loadNum, bind, Except.bind,
    if_neg (Nat.pos_iff_ne_zero.mp positive), loadBucket]

/-- Every insertion and every lookup of a database that was created returns exactly when the size of
the table fits `size_t`. -/
theorem walks_end_iff {calls : OpenCalls} {db₀ : Db} {disk : Option Image} (positive : 1 ≤ n)
    (wide : n < 2 ^ 64) (created : openDb none ⟨n⟩ calls = .ok (some db₀, disk)) :
    CallsReturn db₀ ↔ sizeofHeader + sizeofDbid * n < 2 ^ 64 := by
  constructor
  · intro returns
    by_contra overflow
    obtain ⟨rfl, wraps, fits⟩ := openDb_created_wrapped created
    obtain ⟨later, run, -, gets⟩ := returns [] (by simp) (by decide)
    cases run.unique (Returns.const _)
    have num : (⟨tableFile (n % 2 ^ 61) n, sizeofHeader + sizeofDbid * (n % 2 ^ 61)⟩ : Db).numBuckets = n :=
      (tableFile_header (n % 2 ^ 61) n).2.trans (Nat.mod_eq_of_lt wide)
    -- the first bucket behind the pages that the short table has
    let index := (pageEnd (sizeofHeader + sizeofDbid * (n % 2 ^ 61)) - sizeofHeader) / sizeofDbid
    have counted : index < n := by
      simp only [index, pageEnd, pageSize, sizeofHeader, sizeofDbid, offLimit] at overflow fits ⊢
      omega
    have behind : pageEnd (sizeofHeader + sizeofDbid * (n % 2 ^ 61)) < bucketOff (index % n) + sizeofDbid := by
      rw [Nat.mod_eq_of_lt counted]
      simp only [index, bucketOff, pageEnd, pageSize, sizeofHeader, sizeofDbid]
      omega
    have stops := get_stops .succeed (by rw [tableFile_size]; exact Nat.le_add_right _ _)
      (Nat.add_pos_left (by decide) _) num positive rfl behind
    obtain ⟨entry, ended⟩ := gets index .succeed
    exact stops.not_returns ended
  · intro noOverflow
    obtain ⟨rfl, fits⟩ := openDb_created noOverflow created
    exact fresh_callsReturn positive fits

/-- One bucket, which an insertion without its record left pointing at the end of the file. -/
theorem walks_end_iff_one_bucket :
    ∃ later, Returns (runOps · ⟨⟨freshFile 1, 24⟩, []⟩
        [.insert [0x61] { InsertCalls.succeed with recordWrite := .fails }]) later ∧
      (∀ val calls, ∃ res, Returns (dbInsert · later.db val calls) res) ∧
      ∀ id calls, ∃ entry, Returns (dbGet · later.db id calls) entry := by
  have allowed : ∀ op ∈ [Op.insert [0x61] { InsertCalls.succeed with recordWrite := .fails }], op.Allowed := by
    simp only [List.mem_singleton, forall_eq]
    exact ⟨le_refl 1, by decide, rfl, rfl, fun _ => .inr rfl, .inr rfl, .inl rfl⟩
  exact (walks_end_iff (le_refl 1) (by decide) (openDb_fresh (by decide))).mpr (by decide) _ allowed (by decide)

/-! ## A walk in a circle -/

/-- 2^61 + 1 buckets, of which the table has one. -/
def wrappedDb : Db := ⟨tableFile 1 (2 ^ 61 + 1), 24⟩

/-- A value of 100 bytes that reads, from byte 56 on, as the header of a record at offset 100 which is
its own successor. -/
def circularPaste : List UInt8 := List.replicate 68 0 ++ leBytes 8 100 ++ List.replicate 24 0

/-- The paste fills bucket 0, and bucket 1 reads its length. -/
def circularDb : Db :=
  { wrappedDb.advance.setBucket 0 24 with
    file := (wrappedDb.advance.setBucket 0 24).file.write 24 (recordBytes circularPaste 0) }

theorem circularDb_inserted (fuel : Nat) :
    dbInsert fuel wrappedDb circularPaste .succeed = .ok ⟨circularDb, .ok, some 0⟩ := by
  have acc : Accessible wrappedDb := ⟨by decide, by decide, by decide, by decide⟩
  have index : wrappedDb.index = 0 := by decide
  have id : wrappedDb.id = 0 := by decide
  have pos : getFileSize wrappedDb.file InsertCalls.succeed.fstat = 24 := by decide
  have count : InsertCalls.succeed.recordCount 24 circularPaste.length = some 120 := by decide
  have whole : (recordBytes circularPaste 0).take 120 = recordBytes circularPaste 0 :=
    List.take_of_length_le (by decide)
  rw [dbInsert_free acc rfl (by decide), index, id, pos, finishInsert_eq, count]
  simp only [whole]
  rfl

theorem circularDb_present : 100 + recHdrSize ≤ circularDb.file.size := by decide +kernel

/-- The words that a lookup of id 1 and the next insertion load. -/
theorem circularDb_words : circularDb.numBuckets = 2 ^ 61 + 1 ∧ circularDb.id = 1 ∧ circularDb.bucket 1 = 100 := by
  decide +kernel

theorem circularDb_record : (recordAt circularDb.file 100).next = 100 ∧ (recordAt circularDb.file 100).id = 0 := by
  decide +kernel

/-- The header that the value of the paste holds, in this file and in one that agrees behind the counter. -/
theorem readHeader_circular {file : Image} (size : file.size = circularDb.file.size)
    (same : ∀ i, 8 ≤ i → file.byte i = circularDb.file.byte i) : ∃ record,
    readHeader file 100 .full = some record ∧ record.next = 100 ∧ record.id = 0 := by
  have header : readHeader file 100 .full = some (recordAt file 100) := by
    rw [readHeader, pread_of_full (by decide) (by rw [size]; exact circularDb_present)]
    exact if_pos (Image.slice_length ..)
  obtain ⟨next, id⟩ := circularDb_record
  have word : ∀ off width, 8 ≤ off → file.readNat off width = circularDb.file.readNat off width :=
    fun off width past => Image.readNat_congr fun i lower _ => same i (le_trans past lower)
  exact ⟨_, header, (word _ _ (by decide)).trans next, (word _ _ (by decide)).trans id⟩

theorem circularDb_accessible : Accessible circularDb := by
  refine ⟨by decide +kernel, by decide, by decide +kernel, by decide +kernel⟩

theorem circular_get (fuel : Nat) : dbGet fuel circularDb 1 .succeed = .error .fuel := by
  obtain ⟨num, -, bucket⟩ := circularDb_words
  obtain ⟨present, nonempty, -, -⟩ := circularDb_accessible
  have loadNum : circularDb.load 8 = .ok (2 ^ 61 + 1) := by
    rw [← num]
    exact load_mapped (mapped_header (by decide) nonempty present)
  have loadBucket : circularDb.load (bucketOff (1 % (2 ^ 61 + 1))) = .ok 100 := by
    rw [← bucket]
    exact load_mapped (by decide +kernel)
  obtain ⟨record, header, next, id⟩ := readHeader_circular rfl fun _ _ => rfl
  have circle : loop Stop.fuel (findStep circularDb.file 1 .succeed) fuel (0, 100) = .error .fuel := by
    refine loop_of_stays (fun state => state.2 = 100) ?_ rfl fuel
    rintro ⟨count, offset⟩ rfl
    refine ⟨(count + 1, 100), ?_, rfl⟩
    simp [findStep, GetCalls.succeed, header, next, id, dbidFree]
  simp only [dbGet, GetCalls.succeed, loadNum, loadBucket, bind, Except.bind] at circle ⊢
  exact circle

theorem circular_insert (fuel : Nat) : dbInsert fuel circularDb [0x61] .succeed = .error .fuel := by
  obtain ⟨num, counter, bucket⟩ := circularDb_words
  have index : circularDb.index = 1 := by
    rw [Db.index, num, counter]
    decide
  obtain ⟨record, header, next, -⟩ :=
    readHeader_circular circularDb_accessible.advance_size fun i past => advance_byte past
  have circle : lastLink circularDb.advance.file (fun _ => .full) fuel 100 = .error .fuel := by
    refine loop_of_stays (fun state => state.2 = 100) ?_ rfl fuel
    rintro ⟨count, offset⟩ rfl
    refine ⟨(count + 1, 100), ?_, rfl⟩
    simp [lastLinkStep, header, next, dbidFree]
  rw [dbInsert_taken circularDb_accessible rfl (by rw [index, bucket]; decide), index, bucket]
  simp only [InsertCalls.succeed, circle, Except.map]

/-- With 2^61 + 1 buckets, after one paste neither a lookup of id 1 nor a second insertion comes to an
end, whatever the fuel. -/
theorem not_walks_end_wrapped :
    openDb none ⟨2 ^ 61 + 1⟩ .succeed = .ok (some wrappedDb, some wrappedDb.file) ∧
      (Op.insert circularPaste .succeed).Allowed ∧
      Returns (runOps · ⟨wrappedDb, []⟩ [.insert circularPaste .succeed]) ⟨circularDb, [0]⟩ ∧
      (∀ fuel, dbGet fuel circularDb 1 .succeed = .error .fuel) ∧
      (∀ fuel, dbInsert fuel circularDb [0x61] .succeed = .error .fuel) ∧ ¬ CallsReturn wrappedDb := by
  have allowed : (Op.insert circularPaste .succeed).Allowed :=
    ⟨by decide, by decide, rfl, rfl, fun _ => .inr rfl, .inr rfl, .inr rfl⟩
  have run : Returns (runOps · ⟨wrappedDb, []⟩ [.insert circularPaste .succeed]) ⟨circularDb, [0]⟩ := by
    refine ⟨0, fun fuel _ => ?_⟩
    simp only [runOps, runOp, circularDb_inserted]
    rfl
  refine ⟨rfl, allowed, run, circular_get, circular_insert, fun returns => ?_⟩
  obtain ⟨later, run', -, gets⟩ := returns _ (List.forall_mem_singleton.mpr allowed) (by decide)
  cases run.unique run'
  obtain ⟨entry, enough, ended⟩ := gets 1 .succeed
  cases (circular_get enough).symm.trans (ended enough (le_refl _))

end Cask.Database
