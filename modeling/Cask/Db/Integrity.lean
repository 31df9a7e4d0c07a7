import Cask.Db.Insert

/-! # Integrity of the header and the bucket table

Over any history of insertions whose system calls either succeed in full or fail
outright, lookups, and close/open pairs, no write reaches the header or the bucket table
except the counter increment and the one store that fills an empty bucket.

Offsets are read back from the file before they are written through, and a failed
insertion leaves a bucket pointing at the old end of the file.  What saves the table is
that such an offset stays *placed*: when a whole record header can be read at it, the
`next` field found there is either free or negative as a file offset.  A walk therefore
ends at the bucket's own offset or fails, and the link goes past the table.
-/

namespace Cask.Database

open Storage Fuel

variable {db : Db} {val : List UInt8} {calls : InsertCalls} {fuel n count : Nat}

/-! ## Offsets a walk may start from -/

/-- An offset past the table whose `next` field, once readable, leads nowhere.  As long as the
header at the offset is incomplete, the file ends at most seven bytes after the offset. -/
structure Placed (file : Image) (table offset : Nat) : Prop where
  past_table : table ≤ offset
  in_file : offset ≤ file.size
  next_ends : offset + recHdrSize ≤ file.size → offLimit ≤ file.readNat (offset + 12) 8
  torn_end : file.size < offset + recHdrSize → file.size ≤ offset + 7

variable {file : Image} {table s t : Nat}

theorem free_bytes {k : Nat} (bound : k < 8) : (leBytes 8 dbidFree).getD k 0 = 255 := by
  revert k
  decide

/-- Writing a link at one placed offset keeps the others placed. -/
theorem Placed.link {pos : Nat} (placed : Placed file table s)
    (complete : t + recHdrSize ≤ file.size) (apart : s ≤ t ∨ t + recHdrSize < s) :
    Placed (file.write (t + recHdrSize) (leBytes 8 pos)) table s := by
  have size : (file.write (t + recHdrSize) (leBytes 8 pos)).size = max file.size (t + recHdrSize + 8) := by
    rw [Image.write_size (by simp [leBytes]), leBytes_length]
  obtain ⟨past, inside, ends, torn⟩ := placed
  have hdr : recHdrSize = 20 := rfl
  refine ⟨past, by omega, fun readable => ?_, fun short => by omega⟩
  -- the written range never meets the next field of another placed offset
  rw [Image.readNat_write_disjoint (by rw [leBytes_length]; omega)]
  exact ends (by omega)

/-- A record written at the old end of file completes the headers that were torn there. -/
theorem Placed.record {pos id : Nat} (placed : Placed file table s) (before : s ≤ pos)
    (gap : s + recHdrSize ≤ pos ∨ pos ≤ s + 7) (lower : pos ≤ file.size)
    (upper : file.size ≤ pos + 8) (nonempty : 1 ≤ val.length) :
    Placed (file.write pos (recordBytes val id)) table s := by
  have size : (file.write pos (recordBytes val id)).size = pos + (recHdrSize + val.length) := by
    rw [Image.write_size (recordBytes_ne_nil _ _), recordBytes_length, Nat.max_eq_right]
    exact le_trans upper (by simp only [recHdrSize, offsetofOffset]; omega)
  obtain ⟨past, inside, ends, torn⟩ := placed
  have hdr : recHdrSize = 20 := rfl
  refine ⟨past, by omega, fun _ => ?_, fun short => by omega⟩
  cases gap with
  | inl whole =>
    rw [Image.readNat_write_disjoint (by omega)]
    exact ends (by omega)
  | inr near =>
    -- the top byte of the field read at `s` is a byte of the record's own next field
    have top : ((file.write pos (recordBytes val id)).byte (s + 12 + 7)).toNat = 255 := by
      have index : s + 12 + 7 - pos = (leBytes 4 val.length ++ leBytes 8 id).length + (s + 7 - pos) := by
        simp only [List.length_append, leBytes_length]
        omega
      rw [Image.write_byte_inside (by omega) (by rw [recordBytes_length]; omega), index,
        recordBytes,
        List.append_assoc, List.getD_append_right _ _ _ _ (by omega), Nat.add_sub_cancel_left,
        List.getD_append _ _ _ _ (by rw [leBytes_length]; omega), free_bytes (by omega)]
      rfl
    have bound := le_wordAt_of_top (le_of_eq top.symm)
    calc offLimit ≤ 255 * 256 ^ 7 := by norm_num [offLimit]
      _ ≤ _ := bound

/-! ## The invariant -/

/-- The state of a database with `n` buckets after `count` calls of `db_insert`. -/
structure Sound (n count : Nat) (db : Db) : Prop where
  buckets_pos : 1 ≤ n
  mapSize : db.mapSize = sizeofHeader + sizeofDbid * n
  table_present : sizeofHeader + sizeofDbid * n ≤ db.file.size
  size_lt : db.file.size < offLimit
  numBuckets : db.numBuckets = n
  id : db.id = count % 2 ^ 64
  unused : ∀ i, i < n → count ≤ i → db.bucket i = dbidFree
  used : ∀ i, i < n → i < count → Placed db.file (sizeofHeader + sizeofDbid * n) (db.bucket i)
  apart : ∀ i j, i < n → j < n → i < count → j < count →
    db.bucket i ≤ db.bucket j ∨ db.bucket j + recHdrSize < db.bucket i
  -- no link has been written before the table is full, so the file ends with a whole record
  aligned : count < n → ∀ i, i < count → db.bucket i < db.file.size →
    db.bucket i + recHdrSize < db.file.size

theorem Sound.accessible (sound : Sound n count db) : Accessible db := by
  have index : db.index < n := by
    rw [Db.index, sound.numBuckets]
    exact Nat.mod_lt _ sound.buckets_pos
  refine ⟨le_trans (Nat.le_add_right _ _) sound.table_present, ?_, ?_, ?_⟩
  · rw [sound.mapSize]
    exact Nat.add_pos_left (by decide) _
  · rw [sound.numBuckets]
    have := sound.buckets_pos
    omega
  · refine mapped_inside ⟨?_, le_trans (bucketOff_lt index) sound.table_present⟩
    rw [sound.mapSize]
    exact bucketOff_lt index

theorem Sound.index_eq (sound : Sound n count db) (bound : count < 2 ^ 64) :
    db.index = count % n := by
  rw [Db.index, sound.id, sound.numBuckets, Nat.mod_eq_of_lt bound]

theorem Placed.ne_free (placed : Placed file table s) (bound : file.size < offLimit) :
    s ≠ dbidFree := by
  have inside := placed.in_file
  have limit : offLimit < dbidFree := by decide
  omega

/-- A bucket is empty exactly until the insertion that belongs to it. -/
theorem Sound.bucket_free_iff (sound : Sound n count db) {i : Nat} (bound : i < n) :
    db.bucket i = dbidFree ↔ count ≤ i := by
  constructor
  · intro free
    by_contra late
    exact (sound.used i bound (by omega)).ne_free sound.size_lt free
  · exact sound.unused i bound

/-! ## Writes past the table -/

/-- Two files with the same header and bucket table. -/
def SameTable (n : Nat) (file file' : Image) : Prop :=
  ∀ i, i < sizeofHeader + sizeofDbid * n → file.byte i = file'.byte i

theorem SameTable.write {off : Nat} {bytes : List UInt8}
    (past : sizeofHeader + sizeofDbid * n ≤ off) : SameTable n file (file.write off bytes) :=
  fun i bound => (Image.write_byte_outside (by omega)).symm

section SameTable

variable (db' : Db) (same : SameTable n db.file db'.file)

include same

theorem SameTable.id : db'.id = db.id :=
  Image.readNat_congr fun i _ upper => (same i (by simp only [sizeofHeader]; omega)).symm

theorem SameTable.numBuckets : db'.numBuckets = db.numBuckets :=
  Image.readNat_congr fun i _ upper => (same i (by simp only [sizeofHeader]; omega)).symm

theorem SameTable.bucket {i : Nat} (bound : i < n) : db'.bucket i = db.bucket i := by
  have inside := bucketOff_lt bound
  exact Image.readNat_congr fun i _ upper => (same i (by omega)).symm

end SameTable

/-! ## The walk -/

theorem readHeader_some {offset : Nat} {outcome : Outcome} {record : Record}
    (read : readHeader file offset outcome = some record) :
    offset < offLimit ∧ offset + recHdrSize ≤ file.size ∧ record = recordAt file offset := by
  unfold readHeader at read
  split at read
  · cases read
  · next data got =>
    split at read
    · next complete =>
      obtain ⟨proper, present, _⟩ := pread_full got complete (by decide)
      exact ⟨proper, present, (Option.some.inj read).symm⟩
    · cases read

theorem readHeader_negative {offset : Nat} {outcome : Outcome} (negative : offLimit ≤ offset) :
    readHeader file offset outcome = none := by
  cases read : readHeader file offset outcome with
  | none => rfl
  | some record =>
    have proper := (readHeader_some read).1
    omega

/-- A walk that finds its end has read a whole header there. -/
theorem lastLink_some {preads : Nat → Outcome} {offset last : Nat}
    (walked : lastLink file preads fuel offset = .ok (some last)) :
    last < offLimit ∧ last + recHdrSize ≤ file.size := by
  refine loop_post (fun found : Option Nat =>
    ∀ last, found = some last → last < offLimit ∧ last + recHdrSize ≤ file.size) ?_ walked last rfl
  · rintro ⟨count, offset⟩ found step last rfl
    simp only [lastLinkStep] at step
    split at step
    · cases step
    · next record read =>
      split at step
      · cases step
      · cases step
        exact ⟨(readHeader_some read).1, (readHeader_some read).2.1⟩

/-- From a placed offset the walk ends within two reads, at the offset itself or with a failure. -/
theorem lastLink_placed (placed : Placed file table s) (preads : Nat → Outcome) :
    ∃ last, (∀ fuel, 2 ≤ fuel → lastLink file preads fuel s = .ok last) ∧
      (last = none ∨ last = some s ∧ s + recHdrSize ≤ file.size) := by
  have unroll : ∀ last, (∀ fuel, loop .fuel (lastLinkStep file preads) (fuel + 2) (0, s) = .ok last) →
      ∀ fuel, 2 ≤ fuel → lastLink file preads fuel s = .ok last := by
    intro last ended fuel enough
    obtain ⟨fuel, rfl⟩ : ∃ k, fuel = k + 2 := ⟨fuel - 2, by omega⟩
    exact ended fuel
  cases read : readHeader file s (preads 0) with
  | none =>
    refine ⟨none, unroll none fun fuel => ?_, .inl rfl⟩
    simp only [loop, lastLinkStep, read]
  | some record =>
    obtain ⟨_, present, rfl⟩ := readHeader_some read
    by_cases free : (recordAt file s).next = dbidFree
    · refine ⟨some s, unroll (some s) fun fuel => ?_, .inr ⟨rfl, present⟩⟩
      simp [loop, lastLinkStep, read, free]
    · -- the next offset is negative, so the second read fails
      have failed : readHeader file (recordAt file s).next (preads 1) = none :=
        readHeader_negative (placed.next_ends present)
      refine ⟨none, unroll none fun fuel => ?_, .inl rfl⟩
      simp [loop, lastLinkStep, read, free, failed]

/-! ## One insertion -/

theorem Placed.congr {file' : Image} (placed : Placed file table s) (size : file'.size = file.size)
    (same : ∀ i, table ≤ i → file'.byte i = file.byte i) : Placed file' table s := by
  obtain ⟨past, inside, ends, torn⟩ := placed
  refine ⟨past, by omega, fun readable => ?_, fun short => by omega⟩
  rw [Image.readNat_congr fun i lower _ => same i (by omega)]
  exact ends (by omega)

theorem Placed.gap (placed : Placed file table s) :
    s + recHdrSize ≤ file.size ∨ file.size ≤ s + 7 := by
  by_cases readable : s + recHdrSize ≤ file.size
  · exact .inl readable
  · exact .inr (placed.torn_end (by omega))

/-- What filling one bucket of the table with the end of the file changes. -/
theorem fill_frame {index mapped : Nat} (early : index < mapped)
    (present : sizeofHeader + sizeofDbid * mapped ≤ db.file.size) (limit : db.file.size < offLimit) :
    let filled := db.advance.setBucket index db.file.size
    filled.file.size = db.file.size ∧
      (∀ i, sizeofHeader + sizeofDbid * mapped ≤ i → filled.file.byte i = db.file.byte i) ∧
      filled.bucket index = db.file.size ∧ (∀ i, i ≠ index → filled.bucket i = db.bucket i) ∧
      filled.numBuckets = db.numBuckets ∧ filled.id = (db.id + 1) % 2 ^ 64 := by
  have inTable := bucketOff_lt early
  refine ⟨?_, fun i outside => ?_, ?_, fun i distinct => ?_, ?_, ?_⟩
  · exact advance_setBucket_size (le_trans inTable present)
  -- behind the table neither the counter nor the slot is written
  · rw [Db.setBucket, Image.write_byte_outside (by rw [leBytes_length]; omega)]
    exact advance_byte (by simp only [sizeofHeader] at outside; omega)
  · apply setBucket_bucket
    simp only [offLimit] at limit
    omega
  · rw [setBucket_bucket_ne distinct.symm, advance_bucket]
  · rw [Db.numBuckets, setBucket_header (le_refl _)]
    exact advance_numBuckets
  · rw [Db.id, setBucket_header (by decide)]
    exact advance_id

/-- Filling the bucket of the next insertion with the end of the file. -/
theorem Sound.fill (sound : Sound n count db) (early : count < n) :
    Sound n (count + 1) (db.advance.setBucket count db.file.size) := by
  obtain ⟨size, past, filled, others, numBuckets, id⟩ :=
    fill_frame early sound.table_present sound.size_lt
  have aligned := sound.aligned early
  refine ⟨sound.buckets_pos, sound.mapSize, by rw [size]; exact sound.table_present,
    by rw [size]; exact sound.size_lt,
    ?_, ?_, ?_, ?_, ?_, ?_⟩
  · rw [numBuckets, sound.numBuckets]
  · rw [id, sound.id, Nat.mod_add_mod]
  · intro i inRange unused
    rw [others i (by omega)]
    exact sound.unused i inRange (by omega)
  · intro i inRange used
    by_cases last : i = count
    · subst last
      rw [filled]
      refine ⟨sound.table_present, by omega, fun readable => ?_, fun _ => by omega⟩
      rw [size] at readable
      simp only [recHdrSize, offsetofOffset] at readable
      omega
    · rw [others i last]
      exact (sound.used i inRange (by omega)).congr size past
  · intro i j inRange inRange' used used'
    -- the new bucket points at the end of the file, behind all others
    by_cases lastI : i = count <;> by_cases lastJ : j = count
    · subst lastI lastJ
      exact .inl (le_refl _)
    · subst lastI
      rw [filled, others j lastJ]
      have inside := (sound.used j inRange' (by omega)).in_file
      have := aligned j (by omega)
      omega
    · subst lastJ
      rw [filled, others i lastI]
      exact .inl (sound.used i inRange (by omega)).in_file
    · rw [others i lastI, others j lastJ]
      exact sound.apart i j inRange inRange' (by omega) (by omega)
  · intro _ i used inside
    rw [size] at inside ⊢
    by_cases last : i = count
    · subst last
      rw [filled] at inside
      omega
    · rw [others i last] at inside ⊢
      exact aligned i (by omega) inside

/-- Advancing the counter when every bucket is in use. -/
theorem Sound.advance (sound : Sound n count db) (late : n ≤ count) :
    Sound n (count + 1) db.advance := by
  have size : db.advance.file.size = db.file.size := by
    have := sound.table_present
    simp only [sizeofHeader] at this
    exact advance_size (by omega)
  have past : ∀ i, sizeofHeader + sizeofDbid * n ≤ i → db.advance.file.byte i = db.file.byte i :=
    fun i outside => advance_byte (by simp only [sizeofHeader] at outside; omega)
  refine ⟨sound.buckets_pos, sound.mapSize, by rw [size]; exact sound.table_present,
    by rw [size]; exact sound.size_lt,
    ?_, ?_, ?_, ?_, ?_, ?_⟩
  · rw [advance_numBuckets, sound.numBuckets]
  · rw [advance_id, sound.id, Nat.mod_add_mod]
  · intro i inRange unused
    omega
  · intro i inRange _
    rw [advance_bucket]
    exact (sound.used i inRange (by omega)).congr size past
  · intro i j inRange inRange' _ _
    rw [advance_bucket, advance_bucket]
    exact sound.apart i j inRange inRange' (by omega) (by omega)
  · intro early
    omega

/-- A file that differs past the table only, in which used buckets are still placed. -/
theorem Sound.past_table (sound : Sound n count db) (file : Image) (same : SameTable n db.file file)
    (grown : db.file.size ≤ file.size) (fits : file.size < offLimit)
    (placed : ∀ i, i < n → i < count → Placed file (sizeofHeader + sizeofDbid * n) (db.bucket i))
    (aligned : count < n → ∀ i, i < count → db.bucket i < file.size → db.bucket i + recHdrSize < file.size) :
    Sound n count { db with file := file } := by
  have bucket : ∀ i, i < n → ({ db with file := file } : Db).bucket i = db.bucket i :=
    fun i inRange =>
    SameTable.bucket { db with file := file } same inRange
  refine ⟨sound.buckets_pos, sound.mapSize, le_trans sound.table_present grown, fits, ?_, ?_,
    ?_, ?_, ?_, ?_⟩
  · exact (SameTable.numBuckets { db with file := file } same).trans sound.numBuckets
  · exact (SameTable.id { db with file := file } same).trans sound.id
  · intro i inRange unused
    rw [bucket i inRange]
    exact sound.unused i inRange unused
  · intro i inRange used
    rw [bucket i inRange]
    exact placed i inRange used
  · intro i j inRange inRange' used used'
    rw [bucket i inRange, bucket j inRange']
    exact sound.apart i j inRange inRange' used used'
  · intro early i used inside
    rw [bucket i (by omega)] at inside ⊢
    exact aligned early i used inside

/-- Writing a link after the last record of a used bucket. -/
theorem Sound.link (sound : Sound n count db) {i : Nat} (pos : Nat) (late : n ≤ count)
    (inRange : i < n) (complete : db.bucket i + recHdrSize ≤ db.file.size)
    (fits : db.bucket i + recHdrSize + 8 < offLimit) :
    Sound n count { db with file := db.file.write (db.bucket i + recHdrSize) (leBytes 8 pos) } := by
  have past := (sound.used i inRange (by omega)).past_table
  apply sound.past_table
  · exact SameTable.write (by omega)
  · exact Image.le_write_size
  · rw [Image.write_size (by simp [leBytes]), leBytes_length]
    exact max_lt sound.size_lt fits
  · intro j inRange' used
    exact (sound.used j inRange' used).link complete (sound.apart j i inRange' inRange used (by omega))
  · intro early
    omega

/-- Writing a whole record at an offset that was the end of the file when the buckets were read. -/
theorem Sound.append (sound : Sound n count db) (id : Nat) {pos : Nat} (past : sizeofHeader + sizeofDbid * n ≤ pos)
    (lower : pos ≤ db.file.size) (upper : db.file.size ≤ pos + 8) (nonempty : 1 ≤ val.length)
    (fits : pos + (recHdrSize + val.length) < offLimit)
    (gap : ∀ i, i < n → i < count →
      db.bucket i ≤ pos ∧ (db.bucket i + recHdrSize ≤ pos ∨ pos ≤ db.bucket i + 7)) :
    Sound n count { db with file := db.file.write pos (recordBytes val id) } := by
  have size : (db.file.write pos (recordBytes val id)).size = pos + (recHdrSize + val.length) := by
    rw [Image.write_size (recordBytes_ne_nil _ _), recordBytes_length, Nat.max_eq_right]
    exact le_trans upper (by simp only [recHdrSize, offsetofOffset]; omega)
  apply sound.past_table
  · exact SameTable.write past
  · exact Image.le_write_size
  · rw [size]
    exact fits
  · intro i inRange used
    exact (sound.used i inRange used).record (gap i inRange used).1 (gap i inRange used).2 lower upper nonempty
  · intro early i used _
    have := (gap i (by omega) used).1
    rw [size]
    omega

/-- Calls that succeed in full or fail outright, with the lock taken and a working `fstat`. -/
structure InsertCalls.Crisp (calls : InsertCalls) : Prop where
  wrlock : calls.wrlock = true
  fstat : calls.fstat = true
  pread : ∀ i, (calls.pread i).Crisp
  linkWrite : calls.linkWrite.Crisp
  recordWrite : calls.recordWrite.Crisp

/-- The end of an insertion either leaves the file alone or writes the whole record. -/
theorem finishInsert_crisp (db : Db) (val : List UInt8) (id pos : Nat)
    (crisp : calls.recordWrite.Crisp) :
    finishInsert db val id pos calls = ⟨db, .err, some id⟩ ∨
      pos + (recHdrSize + val.length) < offLimit ∧
      finishInsert db val id pos calls =
        ⟨{ db with file := db.file.write pos (recordBytes val id) }, .ok, some id⟩ := by
  rw [finishInsert_eq]
  cases moved : calls.recordCount pos val.length with
  | none => exact .inl rfl
  | some count =>
    right
    unfold InsertCalls.recordCount at moved
    split at moved
    · have whole := crisp.written_eq moved
      refine ⟨(Outcome.written_le moved).2, ?_⟩
      simp only [whole, ← recordBytes_length val id, List.take_length]
    · cases moved

/-- What an insertion guarantees about the state after it. -/
structure Inserted (n count : Nat) (db : Db) (res : InsertResult) : Prop where
  sound : Sound n (count + 1) res.db
  result : res.ret = .ok → res.result = some count
  kept : ∀ i, i < n → i < count → res.db.bucket i = db.bucket i

/-- The record write at the end of an insertion, from any state in which the link is made. -/
theorem Sound.finish {db₁ : Db} {id : Nat} (sound : Sound n count db) (crisp : calls.Crisp)
    (nonempty : 1 ≤ val.length) (linked : Sound n (count + 1) db₁) (isCount : id = count)
    (kept : ∀ i, i < n → i < count → db₁.bucket i = db.bucket i)
    (lower : db.file.size ≤ db₁.file.size) (upper : db₁.file.size ≤ db.file.size + 8)
    (gap : ∀ i, i < n → i < count + 1 → db₁.bucket i ≤ db.file.size ∧
      (db₁.bucket i + recHdrSize ≤ db.file.size ∨ db.file.size ≤ db₁.bucket i + 7)) :
    Inserted n count db (finishInsert db₁ val id db.file.size calls) := by
  subst isCount
  obtain failed | ⟨fits, written⟩ := finishInsert_crisp db₁ val id db.file.size crisp.recordWrite
  · rw [failed]
    exact ⟨linked, by simp, kept⟩
  · rw [written]
    have appended := linked.append id sound.table_present lower upper nonempty fits gap
    refine ⟨appended, fun _ => rfl, fun i inRange used => ?_⟩
    rw [← kept i inRange used]
    exact SameTable.bucket { db₁ with file := db₁.file.write db.file.size (recordBytes val id) }
      (SameTable.write sound.table_present) inRange

theorem Sound.header_present (sound : Sound n count db) : 8 ≤ db.file.size := by
  have present := sound.table_present
  simp only [sizeofHeader] at present
  omega

theorem Sound.id_eq (sound : Sound n count db) (bound : count < 2 ^ 64) : db.id = count := by
  rw [sound.id, Nat.mod_eq_of_lt bound]

/-- As long as there are fewer records than buckets, the next one goes to a bucket of its own. -/
theorem Sound.next_free (sound : Sound n count db) (bound : count < 2 ^ 64) (early : count < n) :
    db.index = count ∧ db.bucket db.index = dbidFree := by
  have index : db.index = count := by rw [sound.index_eq bound, Nat.mod_eq_of_lt early]
  rw [index]
  exact ⟨rfl, sound.unused count early (le_refl _)⟩

/-- An insertion into an empty bucket: the bucket is filled, then the record is written. -/
theorem Sound.insert_empty (sound : Sound n count db) (bound : count < 2 ^ 64) (early : count < n)
    (crisp : calls.Crisp) (nonempty : 1 ≤ val.length) :
    ∃ res, (∀ fuel, 2 ≤ fuel → dbInsert fuel db val calls = .ok res) ∧ Inserted n count db res := by
  obtain ⟨index, free⟩ := sound.next_free bound early
  have pos : getFileSize db.file calls.fstat = db.file.size := by simp [getFileSize, crisp.fstat]
  have filled := sound.fill early
  refine ⟨_, fun fuel _ => dbInsert_free sound.accessible crisp.wrlock free, ?_⟩
  rw [pos, index]
  obtain ⟨size, -, -, others, -, -⟩ := fill_frame early sound.table_present sound.size_lt
  have kept : ∀ i, i < n → i < count → (db.advance.setBucket count db.file.size).bucket i = db.bucket i :=
    fun i _ used => others i (by omega)
  apply sound.finish crisp nonempty filled (sound.id_eq bound) kept (by omega) (by omega)
  intro i inRange used
  have placed := filled.used i inRange used
  have inside := placed.in_file
  have gap := placed.gap
  rw [size] at inside gap
  exact ⟨inside, gap⟩

/-- The link and the record of an insertion into a bucket in use whose walk found its end. -/
theorem Sound.link_and_finish (sound : Sound n count db) (bound : count < 2 ^ 64) (late : n ≤ count)
    {i : Nat} (inRange : i < n) (complete : db.bucket i + recHdrSize ≤ db.file.size)
    (crisp : calls.Crisp) (nonempty : 1 ≤ val.length) :
    Inserted n count db (linkAndFinish db.advance val db.id db.file.size calls
      (some (db.bucket i))) := by
  have advanced := sound.advance late
  have size : db.advance.file.size = db.file.size := advance_size sound.header_present
  have kept : ∀ j, j < n → j < count → db.advance.bucket j = db.bucket j :=
    fun _ _ _ => advance_bucket
  have small : (db.bucket i + recHdrSize) % 2 ^ 64 = db.bucket i + recHdrSize := by
    apply Nat.mod_eq_of_lt
    have limit := sound.size_lt
    simp only [offLimit] at limit
    omega
  have offsets : offsetofOffset = recHdrSize := rfl
  simp only [linkAndFinish, offsets, small, pwrite, leBytes_length]
  cases moved : calls.linkWrite.written (db.bucket i + recHdrSize) 8 with
  | none => exact ⟨advanced, by simp, kept⟩
  | some count' =>
    obtain rfl := crisp.linkWrite.written_eq moved
    have fits := (Outcome.written_le moved).2
    have whole : (leBytes 8 db.file.size).take 8 = leBytes 8 db.file.size := by
      rw [List.take_of_length_le (by simp)]
    -- the link goes behind the header of a record that is there, not into the table
    have linked := advanced.link (i := i) db.file.size (by omega) inRange
      (by rw [advance_bucket, size]; exact complete) (by rw [advance_bucket]; exact fits)
    rw [advance_bucket] at linked
    simp only [sizeofDbid, ↓reduceIte, whole]
    have past := (sound.used i inRange (by omega)).past_table
    have keptLink : ∀ j, j < n → j < count →
        (⟨db.advance.file.write (db.bucket i + recHdrSize) (leBytes 8 db.file.size), db.advance.mapSize⟩ : Db).bucket
          j = db.bucket j := by
      intro j inRange' used
      rw [← kept j inRange' used]
      exact SameTable.bucket _ (SameTable.write (by omega)) inRange'
    obtain ⟨lower, upper⟩ := link_size (le_trans complete (Nat.le_of_eq size.symm)) db.file.size
    rw [size] at lower upper
    apply sound.finish crisp nonempty linked (sound.id_eq bound) keptLink lower upper
    -- the buckets pointed inside the file before the insertion
    intro j inRange' used
    rw [keptLink j inRange' (by omega)]
    have before := sound.used j inRange' (by omega)
    exact ⟨before.in_file, before.gap⟩

/-- An insertion into a bucket in use: the walk ends at the bucket's own offset or fails. -/
theorem Sound.insert_used (sound : Sound n count db) (bound : count < 2 ^ 64) (late : n ≤ count)
    (crisp : calls.Crisp) (nonempty : 1 ≤ val.length) :
    ∃ res, (∀ fuel, 2 ≤ fuel → dbInsert fuel db val calls = .ok res) ∧ Inserted n count db res := by
  have pos : getFileSize db.file calls.fstat = db.file.size := by simp [getFileSize, crisp.fstat]
  have inRange : db.index < n := by
    rw [sound.index_eq bound]
    exact Nat.mod_lt _ sound.buckets_pos
  have placed := sound.used db.index inRange (by omega)
  have size : db.advance.file.size = db.file.size := advance_size sound.header_present
  have advanced := sound.advance late
  have placed' := advanced.used db.index inRange (by omega)
  rw [advance_bucket] at placed'
  obtain ⟨last, walked, ends⟩ := lastLink_placed placed' calls.pread
  refine ⟨linkAndFinish db.advance val db.id db.file.size calls last, fun fuel enough => ?_, ?_⟩
  · rw [dbInsert_taken sound.accessible crisp.wrlock (placed.ne_free sound.size_lt),
      walked fuel enough, pos]
    rfl
  · obtain rfl | ⟨rfl, complete⟩ := ends
    · exact ⟨advanced, by simp [linkAndFinish], fun _ _ _ => advance_bucket⟩
    · exact sound.link_and_finish bound late inRange (by rwa [size] at complete) crisp nonempty

/-- One insertion with crisp calls returns and keeps the invariant. -/
theorem Sound.insert (sound : Sound n count db) (bound : count < 2 ^ 64) (crisp : calls.Crisp)
    (nonempty : 1 ≤ val.length) :
    ∃ res, (∀ fuel, 2 ≤ fuel → dbInsert fuel db val calls = .ok res) ∧ Inserted n count db res := by
  by_cases early : count < n
  · exact sound.insert_empty bound early crisp nonempty
  · exact sound.insert_used bound (by omega) crisp nonempty

/-! ## Lookups -/

theorem Sound.dbGet_eq (sound : Sound n count db) {id : Nat} {calls : GetCalls}
    (lock : calls.rdlock = true) :
    dbGet fuel db id calls =
      if db.bucket (id % n) = dbidFree then .ok none
      else loop .fuel (findStep db.file id calls) fuel (0, db.bucket (id % n)) := by
  have present := sound.table_present
  have inTable := bucketOff_lt (Nat.mod_lt id sound.buckets_pos)
  have nonzero : n ≠ 0 := by
    have := sound.buckets_pos
    omega
  obtain ⟨header, nonempty, -, -⟩ := sound.accessible
  have loadNum : db.load 8 = .ok n := by
    rw [← sound.numBuckets]
    exact load_mapped (mapped_header (by decide) nonempty header)
  have loadBucket : db.load (bucketOff (id % n)) = .ok (db.bucket (id % n)) :=
    load_mapped (mapped_inside ⟨by rw [sound.mapSize]; exact inTable, le_trans inTable present⟩)
  simp only [dbGet, lock, Bool.not_true, Bool.false_eq_true, ↓reduceIte, loadNum, bind,
    Except.bind, nonzero,
    loadBucket]
  rfl

/-- From a placed offset the search ends within two reads. -/
theorem find_placed (placed : Placed file table s) (id : Nat) (calls : GetCalls) :
    ∃ entry, ∀ fuel, 2 ≤ fuel → loop .fuel (findStep file id calls) fuel (0, s) = .ok entry := by
  suffices unrolled : ∃ entry, ∀ fuel, loop .fuel (findStep file id calls) (fuel + 2) (0, s) = .ok entry by
    obtain ⟨entry, ended⟩ := unrolled
    refine ⟨entry, fun fuel enough => ?_⟩
    obtain ⟨fuel, rfl⟩ : ∃ k, fuel = k + 2 := ⟨fuel - 2, by omega⟩
    exact ended fuel
  cases read : readHeader file s (calls.pread 0) with
  | none => exact ⟨none, fun fuel => by simp only [loop, findStep, read]⟩
  | some record =>
    obtain ⟨_, present, rfl⟩ := readHeader_some read
    by_cases found : (recordAt file s).id = id
    · -- whatever the value read does, the search is over
      have ends : ∃ entry, findStep file id calls (0, s) = .ok (.done entry) := by
        simp only [findStep, read, found, ↓reduceIte]
        split
        · exact ⟨_, rfl⟩
        · split <;> exact ⟨_, rfl⟩
      obtain ⟨entry, ends⟩ := ends
      exact ⟨entry, fun fuel => by simp only [loop, ends]⟩
    · by_cases free : (recordAt file s).next = dbidFree
      · exact ⟨none, fun fuel => by simp [loop, findStep, read, found, free]⟩
      · have failed : readHeader file (recordAt file s).next (calls.pread 1) = none :=
          readHeader_negative (placed.next_ends present)
        exact ⟨none, fun fuel => by simp [loop, findStep, read, found, free, failed]⟩

/-- A lookup returns, whatever its calls do. -/
theorem Sound.get (sound : Sound n count db) (id : Nat) (calls : GetCalls) :
    ∃ entry, ∀ fuel, 2 ≤ fuel → dbGet fuel db id calls = .ok entry := by
  cases lock : calls.rdlock with
  | false => exact ⟨none, fun fuel _ => by simp [dbGet, lock]⟩
  | true =>
    have inRange := Nat.mod_lt id sound.buckets_pos
    by_cases free : db.bucket (id % n) = dbidFree
    · exact ⟨none, fun fuel _ => by rw [sound.dbGet_eq lock, if_pos free]⟩
    · have used := mt (sound.bucket_free_iff inRange).mpr free
      obtain ⟨entry, ended⟩ := find_placed (sound.used _ inRange (by omega)) id calls
      exact ⟨entry, fun fuel enough => by rw [sound.dbGet_eq lock, if_neg free, ended fuel enough]⟩

end Cask.Database
