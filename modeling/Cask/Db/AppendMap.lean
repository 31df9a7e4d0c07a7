import Cask.Db.History

/-! # The database as an append-only map

When every system call succeeds, an insertion appends its record at the end of the file.
An insertion into an empty bucket leaves every other record alone.  An insertion into a
bucket in use writes its link over the value that follows the header of the bucket's
record, and does not chain the new record.  So the database is an append-only map as long
as no two insertions share a bucket, and no longer: the first id of a second round over
the buckets is handed out and never found.
-/

namespace Cask.Database

open Storage Fuel

variable {n count fuel : Nat} {db : Db} {val : List UInt8}

theorem succeed_crisp : InsertCalls.succeed.Crisp :=
  ⟨rfl, rfl, fun _ => .inr rfl, .inr rfl, .inr rfl⟩

/-! ## A successful insertion -/

/-- The file after a successful insertion of `val` with id `count`. -/
structure Appended (n count : Nat) (db : Db) (val : List UInt8) (res : InsertResult) : Prop where
  inserted : Inserted n count db res
  ret : res.ret = .ok
  size : res.db.file.size = db.file.size + (recHdrSize + val.length)
  record : res.db.file.Holds db.file.size (recordBytes val count)
  bucket : count < n → res.db.bucket count = db.file.size
  -- only the eight bytes after the header of the bucket's record may change
  old : ∀ i, sizeofHeader + sizeofDbid * n ≤ i → i < db.file.size →
    (n ≤ count → i < db.bucket (count % n) + recHdrSize ∨ db.bucket (count % n) + recHdrSize + 8 ≤ i) →
    res.db.file.byte i = db.file.byte i

theorem finishInsert_succeed (db : Db) (id : Nat) {pos : Nat}
    (fits : pos + (recHdrSize + val.length) < offLimit) :
    finishInsert db val id pos .succeed =
      ⟨⟨db.file.write pos (recordBytes val id), db.mapSize⟩, .ok, some id⟩ := by
  have whole : InsertCalls.succeed.recordCount pos val.length = some (recordBytes val id).length := by
    rw [recordBytes_length]
    exact Outcome.written_full fits
  rw [finishInsert_eq, whole]
  simp only [List.take_length]

theorem append_size {pos id : Nat} {file : Image} (upper : file.size ≤ pos + 8) :
    (file.write pos (recordBytes val id)).size = pos + (recHdrSize + val.length) := by
  rw [Image.write_size (recordBytes_ne_nil _ _), recordBytes_length, Nat.max_eq_right]
  exact le_trans upper (by simp only [recHdrSize, offsetofOffset]; omega)

theorem Sound.append_empty (sound : Sound n count db) (bound : count < 2 ^ 64) (early : count < n)
    (nonempty : 1 ≤ val.length) (fits : db.file.size + (recHdrSize + val.length) < offLimit) :
    ∃ res, (∀ fuel, 2 ≤ fuel → dbInsert fuel db val .succeed = .ok res) ∧
      Appended n count db val res := by
  obtain ⟨res, ended, inserted⟩ := sound.insert_empty bound early succeed_crisp nonempty
  refine ⟨res, ended, ?_⟩
  obtain ⟨index, free⟩ := sound.next_free bound early
  have computed : dbInsert 2 db val .succeed = _ := dbInsert_free sound.accessible rfl free
  have pos : getFileSize db.file InsertCalls.succeed.fstat = db.file.size := rfl
  rw [ended 2 (le_refl _), pos, index, sound.id_eq bound, finishInsert_succeed _ _ fits] at computed
  have inTable := bucketOff_lt early
  have present := sound.table_present
  have size : (db.advance.setBucket count db.file.size).file.size = db.file.size :=
    advance_setBucket_size (le_trans inTable present)
  have result := Except.ok.inj computed
  subst result
  refine ⟨inserted, rfl, append_size (by rw [size]; omega), Image.holds_write, fun _ => ?_, ?_⟩
  · have limit := sound.size_lt
    simp only [offLimit] at limit
    have filled : (db.advance.setBucket count db.file.size).bucket count = db.file.size := by
      apply setBucket_bucket
      omega
    exact (SameTable.bucket _ (SameTable.write present) early).trans filled
  · intro i past old _
    simp only [sizeofHeader] at past inTable
    rw [Image.write_byte_outside (by omega), Db.setBucket,
      Image.write_byte_outside (by rw [leBytes_length]; omega), advance_byte (by omega)]

/-- In a run where everything succeeds, every bucket in use holds a whole record without a successor. -/
structure Tidy (n count : Nat) (db : Db) : Prop where
  sound : Sound n count db
  whole : ∀ i, i < n → i < count → db.bucket i + recHdrSize < db.file.size
  last : ∀ i, i < n → i < count → db.file.readNat (db.bucket i + 12) 8 = dbidFree

theorem readHeader_whole {file : Image} {offset : Nat} (present : offset + recHdrSize ≤ file.size)
    (limit : file.size < offLimit) :
    readHeader file offset .full = some (recordAt file offset) := by
  rw [readHeader, pread_of_full (by omega) present]
  simp only [Image.slice_length, ↓reduceIte]

theorem Tidy.append_used (tidy : Tidy n count db) (bound : count < 2 ^ 64) (late : n ≤ count)
    (nonempty : 1 ≤ val.length) (fits : db.file.size + (recHdrSize + val.length) < offLimit) :
    ∃ res, (∀ fuel, 2 ≤ fuel → dbInsert fuel db val .succeed = .ok res) ∧
      Appended n count db val res := by
  have sound := tidy.sound
  have index := sound.index_eq bound
  have inRange : db.index < n := by
    rw [index]
    exact Nat.mod_lt _ sound.buckets_pos
  have placed := sound.used db.index inRange (by omega)
  have complete := tidy.whole db.index inRange (by omega)
  have size : db.advance.file.size = db.file.size := advance_size sound.header_present
  have present := sound.table_present
  have past := placed.past_table
  have limit := sound.size_lt
  -- the walk stops at the bucket's own record
  have free : (recordAt db.advance.file (db.bucket db.index)).next = dbidFree := by
    rw [← tidy.last db.index inRange (by omega)]
    exact advance_readNat (by simp only [sizeofHeader] at past; omega)
  have read : readHeader db.advance.file (db.bucket db.index) .full =
      some (recordAt db.advance.file (db.bucket db.index)) :=
    readHeader_whole (by rw [size]; omega) (by rw [size]; exact limit)
  have walked : ∀ fuel, 2 ≤ fuel →
      lastLink db.advance.file InsertCalls.succeed.pread fuel (db.bucket db.index) = .ok (some (db.bucket db.index)) := by
    intro fuel enough
    obtain ⟨fuel, rfl⟩ : ∃ k, fuel = k + 1 := ⟨fuel - 1, by omega⟩
    simp [lastLink, loop, lastLinkStep, InsertCalls.succeed, read, free]
  have hdr : recHdrSize = 20 := rfl
  have small : (db.bucket db.index + offsetofOffset) % 2 ^ 64 = db.bucket db.index + recHdrSize := by
    simp only [offLimit] at limit
    exact Nat.mod_eq_of_lt (by simp only [offsetofOffset]; omega)
  have link : pwrite db.advance.file (db.bucket db.index + recHdrSize) (leBytes 8 db.file.size)
      InsertCalls.succeed.linkWrite =
        (some 8, db.advance.file.write (db.bucket db.index + recHdrSize) (leBytes 8 db.file.size)) := by
    rw [pwrite, leBytes_length]
    rw [show InsertCalls.succeed.linkWrite = .full from rfl, Outcome.written_full (by omega)]
    simp [List.take_of_length_le]
  have linkSize : (db.advance.file.write (db.bucket db.index + recHdrSize) (leBytes 8 db.file.size)).size ≤
      db.file.size + 8 := by
    rw [Image.write_size (by simp [leBytes]), leBytes_length, size]
    omega
  have computed : linkAndFinish db.advance val db.id db.file.size .succeed (some (db.bucket db.index)) =
      ⟨⟨(db.advance.file.write (db.bucket db.index + recHdrSize) (leBytes 8 db.file.size)).write db.file.size
        (recordBytes val count), db.mapSize⟩, .ok, some count⟩ := by
    rw [linkAndFinish, small, link]
    simp only [sizeofDbid, ↓reduceIte, sound.id_eq bound]
    exact finishInsert_succeed _ _ fits
  have inserted := sound.link_and_finish bound late inRange (by omega) succeed_crisp nonempty
  rw [computed] at inserted
  refine ⟨_, fun fuel enough => ?_, inserted, rfl, append_size linkSize, Image.holds_write,
    fun early => by omega, ?_⟩
  · rw [dbInsert_taken sound.accessible rfl (placed.ne_free limit), walked fuel enough, ← computed]
    rfl
  · intro i outside old free
    rw [← index] at free
    have untouched := free late
    simp only [sizeofHeader] at outside
    rw [Image.write_byte_outside (by omega),
      Image.write_byte_outside (by rw [leBytes_length]; omega),
      advance_byte (by omega)]

theorem Tidy.append (tidy : Tidy n count db) (bound : count < 2 ^ 64) (nonempty : 1 ≤ val.length)
    (fits : db.file.size + (recHdrSize + val.length) < offLimit) :
    ∃ res, (∀ fuel, 2 ≤ fuel → dbInsert fuel db val .succeed = .ok res) ∧
      Appended n count db val res := by
  by_cases early : count < n
  · exact tidy.sound.append_empty bound early nonempty fits
  · exact tidy.append_used bound (by omega) nonempty fits

/-- The fields of a record held by the file. -/
theorem holds_record {file : Image} {offset id : Nat}
    (holds : file.Holds offset (recordBytes val id)) (idBound : id < 2 ^ 64)
    (lenBound : val.length < 2 ^ 32) :
    (recordAt file offset).vlen = val.length ∧ (recordAt file offset).id = id ∧
      (recordAt file offset).next = dbidFree ∧
      file.slice (offset + recHdrSize) val.length = val := by
  obtain ⟨header, value⟩ := holds.append
  obtain ⟨front, next⟩ := header.append
  obtain ⟨vlen, idField⟩ := front.append
  simp only [List.length_append, leBytes_length] at idField next value
  refine ⟨vlen.readNat.trans (Nat.mod_eq_of_lt lenBound),
    idField.readNat.trans (Nat.mod_eq_of_lt idBound),
    next.readNat.trans (by decide), value.slice⟩

/-- The next successful insertion keeps the database tidy. -/
theorem Tidy.appended {res : InsertResult} (tidy : Tidy n count db) (bound : count < 2 ^ 64)
    (nonempty : 1 ≤ val.length) (lenBound : val.length < 2 ^ 32)
    (appended : Appended n count db val res) : Tidy n (count + 1) res.db := by
  have size := appended.size
  have kept := appended.inserted.kept
  have hdr : recHdrSize = 20 := rfl
  refine ⟨appended.inserted.sound, fun i inRange used => ?_, fun i inRange used => ?_⟩
  · by_cases last : i = count
    · subst last
      rw [appended.bucket inRange]
      omega
    · rw [kept i inRange (by omega)]
      have := tidy.whole i inRange (by omega)
      omega
  · by_cases last : i = count
    · subst last
      rw [appended.bucket inRange]
      exact (holds_record appended.record bound lenBound).2.2.1
    · rw [kept i inRange (by omega), ← tidy.last i inRange (by omega)]
      have whole := tidy.whole i inRange (by omega)
      have past := (tidy.sound.used i inRange (by omega)).past_table
      apply Image.readNat_congr
      intro j lower upper
      apply appended.old j (by omega) (by omega)
      -- the link of this insertion goes after the header of another bucket's record, or of this one
      intro late
      have other := Nat.mod_lt count tidy.sound.buckets_pos
      have apart := tidy.sound.apart i (count % n) inRange other (by omega) (by omega)
      omega

/-! ## Lookups in a tidy database -/

/-- A search in a tidy database looks at the record of the bucket and at nothing else. -/
theorem Tidy.get (tidy : Tidy n count db) {id : Nat} (inUse : id % n < count) :
    Returns (dbGet · db id .succeed)
      (if (recordAt db.file (db.bucket (id % n))).id = id then
        (pread db.file (db.bucket (id % n) + recHdrSize)
        (recordAt db.file (db.bucket (id % n))).vlen .full).filter
          (·.length = (recordAt db.file (db.bucket (id % n))).vlen)
      else none) := by
  have inRange := Nat.mod_lt id tidy.sound.buckets_pos
  have whole := tidy.whole _ inRange inUse
  have limit := tidy.sound.size_lt
  have taken : db.bucket (id % n) ≠ dbidFree := (tidy.sound.used _ inRange inUse).ne_free limit
  have read := readHeader_whole (le_of_lt whole) limit
  have last : (recordAt db.file (db.bucket (id % n))).next = dbidFree := tidy.last _ inRange inUse
  have small : (db.bucket (id % n) + recHdrSize) % 2 ^ 64 = db.bucket (id % n) + recHdrSize := by
    simp only [offLimit] at limit
    exact Nat.mod_eq_of_lt (by omega)
  simp only [tidy.sound.dbGet_eq (show GetCalls.succeed.rdlock = true from rfl), if_neg taken]
  -- the first record of the chain is its last one
  apply Returns.loop_done
  simp only [findStep, GetCalls.succeed, read, Bool.not_true, Bool.false_eq_true, ↓reduceIte, small,
    last, ne_eq,
    not_true_eq_false]
  split
  · cases pread db.file (db.bucket (id % n) + recHdrSize) (recordAt db.file (db.bucket (id % n))).vlen .full with
    | none => rfl
    | some data => simp [Option.filter]
  · rfl

theorem Tidy.get_stored (tidy : Tidy n count db) {id : Nat} (early : id < n) (used : id < count)
    (idBound : id < 2 ^ 64) (lenBound : val.length < 2 ^ 32)
    (holds : db.file.Holds (db.bucket id) (recordBytes val id))
    (inside : db.bucket id + (recHdrSize + val.length) ≤ db.file.size) :
    Returns (dbGet · db id .succeed) (some val) := by
  have index : id % n = id := Nat.mod_eq_of_lt early
  have found := tidy.get (show id % n < count by rwa [index])
  obtain ⟨vlen, idField, _, value⟩ := holds_record holds idBound lenBound
  have limit := tidy.sound.size_lt
  have read : pread db.file (db.bucket id + recHdrSize) val.length .full = _ :=
    pread_of_full (by omega) (by omega)
  rw [index, idField, if_pos rfl, vlen, read, value] at found
  simpa [Option.filter] using found

theorem Tidy.get_other (tidy : Tidy n count db) {id : Nat} (inUse : id % n < count)
    (other : (recordAt db.file (db.bucket (id % n))).id ≠ id) :
    Returns (dbGet · db id .succeed) none := by
  have found := tidy.get inUse
  rwa [if_neg other] at found

theorem Tidy.get_empty (tidy : Tidy n count db) {id : Nat} (empty : count ≤ id % n) :
    Returns (dbGet · db id .succeed) none := by
  have free := tidy.sound.unused _ (Nat.mod_lt id tidy.sound.buckets_pos) empty
  simp only [tidy.sound.dbGet_eq (show GetCalls.succeed.rdlock = true from rfl), if_pos free]
  exact Returns.const none

/-! ## Runs of insertions -/

/-- Insert the values one after the other, with all calls succeeding.  The second component
pairs every id handed out with the value passed to that insertion. -/
def insertAll (fuel : Nat) : Db → List (List UInt8) → Except Stop (Db × List (Nat × List UInt8))
  | db, [] => .ok (db, [])
  | db, val :: vals => do
    let res ← dbInsert fuel db val .succeed
    let (final, handed) ← insertAll fuel res.db vals
    return (final, (if res.ret = .ok then res.result.toList.map (·, val) else []) ++ handed)

/-- The space taken by the records of `vals`. -/
def recordSpace (vals : List (List UInt8)) : Nat :=
  (vals.map fun val => recHdrSize + val.length).sum

/-- The records of the ids below `count` are in their buckets, whole and unchanged. -/
def Stored (count : Nat) (db : Db) (vals : List (List UInt8)) : Prop :=
  ∀ i, i < count → db.file.Holds (db.bucket i) (recordBytes (vals.getD i []) i) ∧
    db.bucket i + (recHdrSize + (vals.getD i []).length) ≤ db.file.size

/-- The first record is still at the head of the first bucket. -/
def FirstRecord (n : Nat) (db : Db) : Prop :=
  db.bucket 0 = sizeofHeader + sizeofDbid * n ∧
    (recordAt db.file (sizeofHeader + sizeofDbid * n)).id = 0

section Runs

variable {vals done : List (List UInt8)} {res : InsertResult}

theorem Stored.appended (tidy : Tidy n done.length db) (early : done.length < n)
    (stored : Stored done.length db done) (appended : Appended n done.length db val res) :
    Stored (done.length + 1) res.db (done ++ [val]) := by
  intro i used
  by_cases last : i = done.length
  · subst last
    rw [appended.bucket early, List.getD_append_right _ _ _ _ (le_refl _), Nat.sub_self,
      List.getD_cons_zero,
      appended.size]
    exact ⟨appended.record, le_refl _⟩
  · have before : i < done.length := by omega
    obtain ⟨holds, inside⟩ := stored i before
    rw [appended.inserted.kept i (by omega) before, List.getD_append _ _ _ _ before]
    refine ⟨holds.congr fun j lower upper => ?_, by rw [appended.size]; omega⟩
    rw [recordBytes_length] at upper
    have past := (tidy.sound.used i (by omega) before).past_table
    exact appended.old j (by omega) (by omega) (fun late => by omega)

theorem FirstRecord.appended (tidy : Tidy n count db) (used : 0 < count) (first : FirstRecord n db)
    (appended : Appended n count db val res) : FirstRecord n res.db := by
  have positive := tidy.sound.buckets_pos
  obtain ⟨bucket, id⟩ := first
  refine ⟨(appended.inserted.kept 0 positive used).trans bucket, ?_⟩
  rw [← id]
  have whole := tidy.whole 0 positive used
  rw [bucket] at whole
  have hdr : recHdrSize = 20 := rfl
  apply Image.readNat_congr
  intro j lower upper
  apply appended.old j (by omega) (by omega)
  -- a link goes after some record header, and no record starts before the first one
  intro late
  have other := Nat.mod_lt count positive
  have past := (tidy.sound.used (count % n) other (by omega)).past_table
  omega

theorem insertAll_cons {pairs : List (Nat × List UInt8)} {final : Db}
    (ended : ∀ fuel, 2 ≤ fuel → dbInsert fuel db val .succeed = .ok res) (ok : res.ret = .ok)
    (result : res.result = some count) (rest : Returns (insertAll · res.db vals) (final, pairs)) :
    Returns (insertAll · db (val :: vals)) (final, (count, val) :: pairs) := by
  obtain ⟨enough, rest⟩ := rest
  refine ⟨max 2 enough, fun fuel bound => ?_⟩
  have inserted := ended fuel (le_trans (le_max_left _ _) bound)
  have later := rest fuel (le_trans (le_max_right _ _) bound)
  simp only [insertAll, inserted, bind, Except.bind, later, ok, ↓reduceIte, result]
  rfl

/-- A run of successful insertions hands out consecutive ids and stays tidy. -/
theorem Tidy.insertAll (tidy : Tidy n count db)
    (lengths : ∀ val ∈ vals, 1 ≤ val.length ∧ val.length < 2 ^ 32)
    (room : db.file.size + recordSpace vals < offLimit) (few : count + vals.length < 2 ^ 64) :
    ∃ final, Returns (insertAll · db vals) (final, (List.range' count vals.length).zip vals) ∧
      Tidy n (count + vals.length) final ∧
      (0 < count → FirstRecord n db → FirstRecord n final) ∧
      ∀ done, done.length = count → count + vals.length ≤ n → Stored count db done →
        Stored (count + vals.length) final (done ++ vals) := by
  induction vals generalizing count db with
  | nil =>
    refine ⟨db, Returns.const _, tidy, fun _ first => first, fun done _ _ stored => ?_⟩
    simpa using stored
  | cons val vals ih =>
    obtain ⟨nonempty, lenBound⟩ := lengths val List.mem_cons_self
    rw [recordSpace, List.map_cons, List.sum_cons] at room
    rw [List.length_cons] at few
    obtain ⟨res, ended, appended⟩ := tidy.append (by omega) nonempty (by omega)
    have tidy' := tidy.appended (by omega) nonempty lenBound appended
    -- the values behind the first one start from the state that it leaves
    obtain ⟨final, rest, tidyFinal, first, stored⟩ := ih tidy'
      (fun other member => lengths other (List.mem_cons_of_mem _ member))
      (by rw [appended.size, recordSpace]; omega) (by omega)
    have shift : count + 1 + vals.length = count + (val :: vals).length := by
      rw [List.length_cons]; omega
    rw [shift] at tidyFinal stored
    refine ⟨final, ?_, tidyFinal,
      fun used isFirst => first (by omega) (isFirst.appended tidy used appended), ?_⟩
    · exact insertAll_cons ended appended.ret (appended.inserted.result appended.ret) rest
    · intro done length early before
      subst length
      have next := before.appended tidy (by rw [List.length_cons] at early; omega) appended
      have all := stored (done ++ [val]) (by simp) early next
      rwa [List.append_assoc, List.singleton_append] at all

end Runs

/-! ## The map -/

/-- A fresh database with `n` buckets, filled with `vals`, answers like the map from the ids
handed out to the values they were handed out for. -/
def RefinesMap (n : Nat) (vals : List (List UInt8)) : Prop :=
  ∃ db₀ disk final handed,
    openDb none ⟨n⟩ .succeed = .ok (some db₀, disk) ∧
    Returns (insertAll · db₀ vals) (final, handed) ∧
    (∀ entry ∈ handed, Returns (dbGet · final entry.1 .succeed) (some entry.2)) ∧
    ∀ id, id < 2 ^ 64 → id ∉ handed.map Prod.fst → Returns (dbGet · final id .succeed) none

theorem fresh_tidy (positive : 1 ≤ n) (fits : sizeofHeader + sizeofDbid * n < offLimit) :
    Tidy n 0 ⟨freshFile n, sizeofHeader + sizeofDbid * n⟩ :=
  ⟨fresh_sound positive fits, fun i _ used => by omega, fun i _ used => by omega⟩

section Map

variable {vals : List (List UInt8)} (positive : 1 ≤ n)
  (lengths : ∀ val ∈ vals, 1 ≤ val.length ∧ val.length < 2 ^ 32)
  (room : sizeofHeader + sizeofDbid * n + recordSpace vals < offLimit)

include room in
theorem few_vals : vals.length < 2 ^ 63 := by
  have each : vals.length ≤ recordSpace vals := by
    clear room
    induction vals with
    | nil => simp [recordSpace]
    | cons val vals ih =>
      rw [recordSpace, List.map_cons, List.sum_cons, List.length_cons]
      rw [recordSpace] at ih
      simp only [recHdrSize, offsetofOffset] at ih ⊢
      omega
  simp only [offLimit] at room
  omega

include positive lengths room

/-- With no more insertions than buckets the database is an append-only map. -/
theorem refinesMap_of_few (few : vals.length ≤ n) : RefinesMap n vals := by
  have bound := few_vals room
  obtain ⟨final, run, tidy, _, stored⟩ := (fresh_tidy positive (by omega)).insertAll lengths
    (by rw [freshFile_size]; exact room) (by omega)
  have all := stored [] rfl (by omega) (fun i used => by omega)
  simp only [Nat.zero_add, List.nil_append] at all tidy
  refine ⟨_, _, final, _, openDb_fresh (by omega), run, ?_, ?_⟩
  · intro entry member
    obtain ⟨i, inRange, rfl⟩ := List.getElem_of_mem member
    simp only [List.length_zip, List.length_range', Nat.min_self] at inRange
    simp only [List.getElem_zip, List.getElem_range', Nat.zero_add, Nat.one_mul]
    obtain ⟨holds, inside⟩ := all i inRange
    rw [List.getD_eq_getElem _ _ inRange] at holds inside
    exact tidy.get_stored (by omega) inRange (by omega) (lengths _ (List.getElem_mem inRange)).2 holds inside
  · intro id idBound fresh
    by_cases empty : vals.length ≤ id % n
    · exact tidy.get_empty empty
    · -- the bucket holds the record of another id
      obtain ⟨holds, inside⟩ := all (id % n) (by omega)
      have small := Nat.mod_le id n
      obtain ⟨_, idField, _⟩ := holds_record holds (by omega)
        (by rw [List.getD_eq_getElem _ _ (by omega)]; exact (lengths _ (List.getElem_mem (by omega))).2)
      apply tidy.get_other (by omega)
      rw [idField]
      intro same
      apply fresh
      rw [List.map_fst_zip (by simp)]
      simp only [List.mem_range'_1]
      omega

/-- The first insertion of a second round over the buckets hands out an id that is not found. -/
theorem not_refinesMap_of_more (more : n < vals.length) : ¬ RefinesMap n vals := by
  rintro ⟨db₀, disk, final, handed, created, run, found, _⟩
  rw [openDb_fresh (by omega)] at created
  obtain ⟨rfl, -⟩ : _ ∧ _ := by simpa using created
  have bound := few_vals room
  cases vals with
  | nil => simp at more
  | cons val vals =>
    obtain ⟨nonempty, lenBound⟩ := lengths val List.mem_cons_self
    rw [recordSpace, List.map_cons, List.sum_cons] at room
    rw [List.length_cons] at more bound
    have fresh := fresh_tidy positive (by omega)
    obtain ⟨res, ended, appended⟩ :=
      fresh.append (by omega) nonempty (by rw [freshFile_size]; omega)
    have tidy := fresh.appended (by omega) nonempty lenBound appended
    -- the first record sits at the start of the record area, and stays at the head of its bucket
    have start : res.db.bucket 0 = sizeofHeader + sizeofDbid * n := by
      rw [appended.bucket positive, freshFile_size]
    have isFirst : FirstRecord n res.db := by
      refine ⟨start, ?_⟩
      have holds := appended.record
      rw [freshFile_size] at holds
      exact (holds_record holds (by omega) lenBound).2.1
    obtain ⟨final', rest, tidyFinal, first, _⟩ := tidy.insertAll
      (fun other member => lengths other (List.mem_cons_of_mem _ member))
      (by rw [appended.size, freshFile_size, recordSpace]; omega) (by omega)
    have total := insertAll_cons ended appended.ret (appended.inserted.result appended.ret) rest
    obtain ⟨rfl, rfl⟩ : final = final' ∧ handed = _ := by simpa using run.unique total
    obtain ⟨bucket, id⟩ := first (by omega) isFirst
    have missing : Returns (dbGet · final n .succeed) none := by
      apply tidyFinal.get_other
      · rw [Nat.mod_self]
        omega
      · rw [Nat.mod_self, bucket, id]
        omega
    have member : (n, vals.getD (n - 1) []) ∈ (0, val) :: (List.range' (0 + 1) vals.length).zip vals := by
      apply List.mem_cons_of_mem
      apply List.mem_iff_getElem.mpr
      refine ⟨n - 1, by simp; omega, ?_⟩
      simp only [List.getElem_zip, List.getElem_range',
        List.getD_eq_getElem _ _ (show n - 1 < vals.length by omega),
        Prod.mk.injEq, and_true]
      omega
    have returned := (found _ member).unique missing
    cases returned

/-- The database is an append-only map exactly when no bucket is used twice. -/
theorem refinesMap_iff : RefinesMap n vals ↔ vals.length ≤ n := by
  constructor
  · intro refines
    by_contra more
    exact not_refinesMap_of_more positive lengths room (by omega) refines
  · exact refinesMap_of_few positive lengths room

end Map

theorem refinesMap_iff_two_buckets :
    RefinesMap 2 [[0x61], [0x62, 0x63]] ↔ [[0x61], [0x62, 0x63]].length ≤ 2 :=
  refinesMap_iff (by decide) (by decide) (by decide)

/-- One bucket and two pastes `"a"` and `"b"`: the second is handed out and lost. -/
theorem not_refinesMap_one_bucket : ¬ RefinesMap 1 [[0x61], [0x62]] :=
  not_refinesMap_of_more (by decide) (by decide) (by decide) (by decide)

end Cask.Database
