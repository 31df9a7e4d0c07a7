import Cask.Db.Integrity

/-! # Histories of a database

A database is created by `open_db` and then used by any sequence of insertions, lookups
and close/open pairs.  The counter counts the insertions, ids are never handed out twice,
and a bucket changes at most once over the whole history.
-/

namespace Cask.Database

open Storage Fuel

variable {n count : Nat} {db : Db}

/-! ## Creation and reopening -/

/-- A file with a table of `mapped` empty buckets, whose header counts `n` of them. -/
def tableFile (mapped n : Nat) : Image :=
  (((Image.empty.truncate (sizeofHeader + sizeofDbid * mapped)).write 0 (leBytes 8 0)).write 8 (leBytes 8 n)).write
    sizeofHeader (List.replicate (sizeofDbid * mapped) 0xff)

theorem tableFile_size (mapped n : Nat) :
    (tableFile mapped n).size = sizeofHeader + sizeofDbid * mapped := by
  have first : ((Image.empty.truncate (sizeofHeader + sizeofDbid * mapped)).write 0 (leBytes 8 0)).size =
      sizeofHeader + sizeofDbid * mapped :=
    Image.write_size_inside (by simp only [leBytes_length, Image.truncate, sizeofHeader]; omega)
  have second : (((Image.empty.truncate (sizeofHeader + sizeofDbid * mapped)).write 0 (leBytes 8 0)).write 8
      (leBytes 8 n)).size = sizeofHeader + sizeofDbid * mapped := by
    rw [Image.write_size_inside (by rw [leBytes_length, first, sizeofHeader]; omega), first]
  rw [tableFile, Image.write_size_inside (by rw [List.length_replicate, second]), second]

theorem tableFile_bucket {mapped i : Nat} (n : Nat) (bound : i < mapped) :
    (tableFile mapped n).readNat (bucketOff i) 8 = dbidFree := by
  have inside := bucketOff_lt bound
  have lower := bucketOff_ge i
  have word : (tableFile mapped n).readNat (bucketOff i) 8 = dbidFree % 256 ^ 8 := by
    apply wordAt_leBytes
    intro k small
    have range : bucketOff i + k - sizeofHeader < sizeofDbid * mapped := by omega
    rw [free_bytes small, tableFile,
      Image.write_byte_inside (by omega) (by rw [List.length_replicate]; omega),
      List.getD_eq_getElem _ _ (by rwa [List.length_replicate]), List.getElem_replicate]
  rw [word]
  rfl

theorem tableFile_header (mapped n : Nat) :
    (tableFile mapped n).readNat 0 8 = 0 ∧ (tableFile mapped n).readNat 8 8 = n % 2 ^ 64 := by
  constructor
  · rw [tableFile, Image.readNat_write_disjoint (by simp [sizeofHeader]),
      Image.readNat_write_disjoint (by simp), Image.readNat_write_same]
    rfl
  · rw [tableFile, Image.readNat_write_disjoint (by simp [sizeofHeader]), Image.readNat_write_same]
    norm_num

/-- A file created by `open_db`. -/
def freshFile (n : Nat) : Image := tableFile n n

theorem freshFile_size (n : Nat) : (freshFile n).size = sizeofHeader + sizeofDbid * n :=
  tableFile_size n n

theorem freshFile_bucket {i : Nat} (bound : i < n) :
    (freshFile n).readNat (bucketOff i) 8 = dbidFree :=
  tableFile_bucket n bound

theorem freshFile_header (small : sizeofHeader + sizeofDbid * n < 2 ^ 64) :
    (freshFile n).readNat 0 8 = 0 ∧ (freshFile n).readNat 8 8 = n := by
  have header := tableFile_header n n
  rwa [Nat.mod_eq_of_lt (by simp only [sizeofDbid] at small; omega)] at header

/-- Whatever the calls did, a database created by `open_db` has an empty table.  The table has the
buckets that were asked for only as far as its size fits `size_t`. -/
theorem openDb_created_wrapped {calls : OpenCalls} {disk : Option Image}
    (created : openDb none ⟨n⟩ calls = .ok (some db, disk)) :
    db = ⟨tableFile (n % 2 ^ 61) n, sizeofHeader + sizeofDbid * (n % 2 ^ 61)⟩ ∧
      tableEnd n = sizeofHeader + sizeofDbid * (n % 2 ^ 61) ∧
      sizeofHeader + sizeofDbid * (n % 2 ^ 61) < offLimit := by
  have memset : sizeofDbid * n % 2 ^ 64 = sizeofDbid * (n % 2 ^ 61) := by
    simp only [sizeofDbid]
    omega
  simp only [openDb, createDb, memset] at created
  split at created
  · cases created
  · split at created
    · cases created
    · split at created
      · cases created
      · next fits =>
        simp only [Bool.or_eq_true, decide_eq_true_eq, not_or, Nat.not_le] at fits
        split at created
        · cases created
        · split at created
          · cases created
          · next room =>
            -- `memset` stayed inside the mapping, so the size is the one of the wrapped table
            have size : tableEnd n = sizeofHeader + sizeofDbid * (n % 2 ^ 61) := by
              simp only [tableEnd, pageEnd, pageSize, sizeofHeader, sizeofDbid, Nat.not_lt] at room ⊢
              omega
            rw [size] at created fits
            cases created
            exact ⟨rfl, size, fits.2⟩

/-- When its size does not overflow, the table is the one that was asked for. -/
theorem openDb_created {calls : OpenCalls} {disk : Option Image}
    (noOverflow : sizeofHeader + sizeofDbid * n < 2 ^ 64)
    (created : openDb none ⟨n⟩ calls = .ok (some db, disk)) :
    db = ⟨freshFile n, sizeofHeader + sizeofDbid * n⟩ ∧
      sizeofHeader + sizeofDbid * n < offLimit := by
  obtain ⟨shape, -, fits⟩ := openDb_created_wrapped created
  rw [Nat.mod_eq_of_lt (by simp only [sizeofDbid] at noOverflow; omega)] at shape fits
  exact ⟨shape, fits⟩

/-- Creation succeeds when its calls do and the table fits the file offset type. -/
theorem openDb_fresh (fits : sizeofHeader + sizeofDbid * n < offLimit) :
    openDb none ⟨n⟩ .succeed =
      .ok (some ⟨freshFile n, sizeofHeader + sizeofDbid * n⟩, some (freshFile n)) := by
  have limit : offLimit < 2 ^ 64 := by decide
  have size : tableEnd n = sizeofHeader + sizeofDbid * n := Nat.mod_eq_of_lt (by omega)
  have memset : sizeofDbid * n % 2 ^ 64 = sizeofDbid * n := Nat.mod_eq_of_lt (by omega)
  have nonzero : ¬ sizeofHeader + sizeofDbid * n = 0 := by simp only [sizeofHeader]; omega
  have mapped : ¬ pageEnd (sizeofHeader + sizeofDbid * n) < sizeofHeader + sizeofDbid * n :=
    Nat.not_lt.mpr (le_pageEnd _)
  simp only [openDb, createDb, OpenCalls.succeed, size, memset, Nat.not_le.mpr fits, nonzero, mapped,
    Bool.not_true, Bool.or_self, decide_false, Bool.false_eq_true, ↓reduceIte, freshFile, tableFile]

theorem fresh_sound (positive : 1 ≤ n) (fits : sizeofHeader + sizeofDbid * n < offLimit) :
    Sound n 0 ⟨freshFile n, sizeofHeader + sizeofDbid * n⟩ := by
  have limit : offLimit < 2 ^ 64 := by decide
  obtain ⟨id, num⟩ := freshFile_header (show sizeofHeader + sizeofDbid * n < 2 ^ 64 by omega)
  refine ⟨positive, rfl, ?_, ?_, num, id, fun i inRange _ => freshFile_bucket inRange, ?_, ?_, ?_⟩
  · rw [freshFile_size]
  · rwa [freshFile_size]
  · intro i _ used
    omega
  · intro i j _ _ used _
    omega
  · intro _ i used
    omega

/-- Reopening gives back a database whose mapping has the size its header asks for. -/
theorem reopen_same (header : sizeofHeader ≤ db.file.size)
    (size : tableEnd (db.file.readNat 8 8) = db.mapSize) (mapped : sizeofHeader ≤ db.mapSize)
    (params : DbParams) : openDb (some (closeDb db)) params .succeed = .ok (some db, some db.file) := by
  have nonzero : db.mapSize ≠ 0 := by
    simp only [sizeofHeader] at mapped
    omega
  have read : pread (closeDb db) 0 sizeofHeader OpenCalls.succeed.read =
      some ((closeDb db).slice 0 sizeofHeader) :=
    pread_of_full (by decide) (by rw [closeDb]; omega)
  simp only [openDb, openExisting, read, Image.slice_length, ne_eq, not_true_eq_false, ↓reduceIte]
  simp [OpenCalls.succeed, closeDb, size, nonzero]

/-- Whenever it works, whatever its calls did. -/
theorem openDb_again {db' : Db} {params : DbParams} {calls : OpenCalls} {disk : Option Image}
    (size : tableEnd (db.file.readNat 8 8) = db.mapSize)
    (opened : openDb (some (closeDb db)) params calls = .ok (some db', disk)) : db' = db := by
  unfold openDb at opened
  split at opened
  · cases opened
  · obtain ⟨opened, -⟩ : openExisting (closeDb db) calls = some db' ∧ _ := by simpa using opened
    unfold openExisting at opened
    split at opened
    · cases opened
    · split at opened
      · cases opened
      · dsimp only at opened
        split at opened
        · cases opened
        · split at opened
          · cases opened
          · -- the header is that of the closed database
            cases opened
            rw [closeDb, size]

/-- Reopening gives back the same database, whatever parameters are passed. -/
theorem Sound.reopen (sound : Sound n count db) (params : DbParams) :
    openDb (some (closeDb db)) params .succeed = .ok (some db, some db.file) := by
  have present := sound.table_present
  have limit := sound.size_lt
  have size : tableEnd (db.file.readNat 8 8) = db.mapSize := by
    have num : db.file.readNat 8 8 = n := sound.numBuckets
    rw [num, sound.mapSize, tableEnd]
    exact Nat.mod_eq_of_lt (by simp only [offLimit] at limit; omega)
  exact reopen_same (by omega) size (by rw [sound.mapSize]; omega) params

/-! ## Operations -/

inductive Op where
  | insert (val : List UInt8) (calls : InsertCalls)
  | get (id : Nat) (calls : GetCalls)
  | reopen (params : DbParams)

/-- Non-empty values that fit `uint32_t`, and insertions with crisp calls. -/
def Op.Allowed : Op → Prop
  | .insert val calls => 1 ≤ val.length ∧ val.length < 2 ^ 32 ∧ calls.Crisp
  | .get _ _ => True
  | .reopen _ => True

def Op.isInsert : Op → Bool
  | .insert _ _ => true
  | _ => false

/-- The database so far and the ids returned by successful insertions, oldest first. -/
structure History where
  db : Db
  ids : List Nat

def runOp (fuel : Nat) (history : History) : Op → Except Stop History
  | .insert val calls => do
    let res ← dbInsert fuel history.db val calls
    return ⟨res.db, if res.ret = .ok then history.ids ++ res.result.toList else history.ids⟩
  | .get id calls => do
    let _ ← dbGet fuel history.db id calls
    return history
  | .reopen params => do
    match ← openDb (some (closeDb history.db)) params .succeed with
    | (some db, _) => return ⟨db, history.ids⟩
    | (none, _) => throw .exit

def runOps (fuel : Nat) : History → List Op → Except Stop History
  | history, [] => .ok history
  | history, op :: ops => do
    let history ← runOp fuel history op
    runOps fuel history ops

/-! ## Histories keep the table -/

/-- The invariant of a history with `count` insertions so far. -/
structure History.Inv (n count : Nat) (history : History) : Prop where
  sound : Sound n count history.db
  increasing : history.ids.Pairwise (· < ·)
  below : ∀ id ∈ history.ids, id < count

/-- The bucket table of `history` survives in `later`. -/
def History.Keeps (n : Nat) (history later : History) : Prop :=
  ∀ i, i < n → history.db.bucket i ≠ dbidFree → later.db.bucket i = history.db.bucket i

theorem History.Keeps.trans {first second third : History} (keeps : first.Keeps n second)
    (keeps' : second.Keeps n third) : first.Keeps n third := by
  intro i inRange taken
  have same := keeps i inRange taken
  rw [← same] at taken
  rw [keeps' i inRange taken, same]

theorem runOp_insert {history : History} {val : List UInt8} {calls : InsertCalls}
    (inv : history.Inv n count) (bound : count < 2 ^ 64) (nonempty : 1 ≤ val.length)
    (crisp : calls.Crisp) :
    ∃ later, Returns (runOp · history (.insert val calls)) later ∧ later.Inv n (count + 1) ∧
      history.Keeps n later := by
  obtain ⟨res, ended, inserted⟩ := inv.sound.insert bound crisp nonempty
  refine ⟨⟨res.db, if res.ret = .ok then history.ids ++ res.result.toList else history.ids⟩,
    ⟨2, fun fuel enough => ?_⟩, ⟨inserted.sound, ?_, ?_⟩, ?_⟩
  · simp only [runOp, ended fuel enough]
    rfl
  · split
    · next ok =>
      rw [inserted.result ok]
      simp only [Option.toList_some, List.pairwise_append, List.pairwise_singleton,
        List.mem_singleton, forall_eq]
      -- the new id is the counter, which is above all earlier ids
      exact ⟨inv.increasing, trivial, inv.below⟩
    · exact inv.increasing
  · intro id member
    split at member
    · next ok =>
      rw [inserted.result ok] at member
      simp only [Option.toList_some, List.mem_append, List.mem_singleton] at member
      cases member with
      | inl old => exact Nat.lt_succ_of_lt (inv.below id old)
      | inr new => omega
    · exact Nat.lt_succ_of_lt (inv.below id member)
  · intro i inRange taken
    have used := mt (inv.sound.bucket_free_iff inRange).mpr taken
    exact inserted.kept i inRange (by omega)

theorem runOp_inv {history : History} {op : Op} (inv : history.Inv n count) (bound : count < 2 ^ 64)
    (allowed : op.Allowed) :
    ∃ later, Returns (runOp · history op) later ∧
      later.Inv n (count + if op.isInsert then 1 else 0) ∧
      history.Keeps n later := by
  cases op with
  | insert val calls => exact runOp_insert inv bound allowed.1 allowed.2.2
  | get id calls =>
    obtain ⟨entry, ended⟩ := inv.sound.get id calls
    refine ⟨history, ⟨2, fun fuel enough => ?_⟩, inv, fun _ _ _ => rfl⟩
    simp only [runOp, ended fuel enough]
    rfl
  | reopen params =>
    refine ⟨history, ⟨0, fun fuel _ => ?_⟩, inv, fun _ _ _ => rfl⟩
    simp only [runOp, inv.sound.reopen params]
    rfl

def insertCount (ops : List Op) : Nat := ops.countP Op.isInsert

theorem runOps_inv {history : History} {ops : List Op} (inv : history.Inv n count)
    (allowed : ∀ op ∈ ops, op.Allowed) (bound : count + insertCount ops < 2 ^ 64) :
    ∃ later, Returns (runOps · history ops) later ∧ later.Inv n (count + insertCount ops) ∧
      history.Keeps n later := by
  induction ops generalizing history count with
  | nil => exact ⟨history, Returns.const history, inv, fun _ _ _ => rfl⟩
  | cons op ops ih =>
    have split : insertCount (op :: ops) = (if op.isInsert then 1 else 0) + insertCount ops := by
      rw [insertCount, List.countP_cons, Nat.add_comm]
      rfl
    rw [split] at bound
    obtain ⟨middle, first, invMiddle, keeps⟩ :=
      runOp_inv inv (by omega) (allowed op List.mem_cons_self)
    obtain ⟨later, rest, invLater, keeps'⟩ :=
      ih invMiddle (fun op' member => allowed op' (List.mem_cons_of_mem _ member))
      (by omega)
    refine ⟨later, first.bind rest, ?_, keeps.trans keeps'⟩
    rw [split, ← Nat.add_assoc]
    exact invLater

theorem runOps_append (fuel : Nat) (history : History) (ops more : List Op) :
    runOps fuel history (ops ++ more) = (runOps fuel history ops).bind (runOps fuel · more) := by
  induction ops generalizing history with
  | nil => rfl
  | cons op ops ih =>
    simp only [List.cons_append, runOps, bind, Except.bind]
    cases runOp fuel history op with
    | error stop => rfl
    | ok middle => exact ih middle

/-- The header, the bucket table and the id counter over a whole history: after any operations
`before` and then any operations `after`, the bucket count is the one of creation, the counter
is the number of insertions, the ids handed out increase, and a bucket that `before` left
in use lies past the table and is not changed by `after`. -/
theorem history_integrity {calls : OpenCalls} {db₀ : Db} {disk : Option Image} (positive : 1 ≤ n)
    (noOverflow : sizeofHeader + sizeofDbid * n < 2 ^ 64)
    (created : openDb none ⟨n⟩ calls = .ok (some db₀, disk)) (before after : List Op)
    (allowed : ∀ op ∈ before ++ after, op.Allowed) (few : insertCount (before ++ after) < 2 ^ 64) :
    ∃ earlier later : History,
      Returns (runOps · ⟨db₀, []⟩ before) earlier ∧
      Returns (runOps · ⟨db₀, []⟩ (before ++ after)) later ∧
      later.db.numBuckets = n ∧
      later.db.id = insertCount (before ++ after) ∧
      later.ids.Pairwise (· < ·) ∧
      ∀ i, i < n → db₀.bucket i = dbidFree ∧
        (earlier.db.bucket i = dbidFree ∨
          sizeofHeader + sizeofDbid * n ≤ earlier.db.bucket i ∧
          later.db.bucket i = earlier.db.bucket i) := by
  obtain ⟨rfl, fits⟩ := openDb_created noOverflow created
  have fresh : History.Inv n 0 ⟨⟨freshFile n, sizeofHeader + sizeofDbid * n⟩, []⟩ :=
    ⟨fresh_sound positive fits, .nil, by simp⟩
  -- the operations behind `earlier` start from its invariant
  have counts : insertCount (before ++ after) = insertCount before + insertCount after :=
    List.countP_append
  obtain ⟨earlier, first, inv, _⟩ := runOps_inv fresh
    (fun op member => allowed op (List.mem_append_left _ member)) (by omega)
  obtain ⟨later, second, inv', keeps⟩ := runOps_inv inv
    (fun op member => allowed op (List.mem_append_right _ member)) (by omega)
  have total : 0 + insertCount before + insertCount after = insertCount (before ++ after) := by omega
  rw [total] at inv'
  refine ⟨earlier, later, first, ?_, inv'.sound.numBuckets, inv'.sound.id_eq few,
    inv'.increasing, ?_⟩
  · simp only [runOps_append]
    exact first.bind second
  · intro i inRange
    refine ⟨freshFile_bucket inRange, ?_⟩
    by_cases free : earlier.db.bucket i = dbidFree
    · exact .inl free
    · have used := mt (inv.sound.bucket_free_iff inRange).mpr free
      exact .inr ⟨(inv.sound.used i inRange (by omega)).past_table, keeps i inRange free⟩

/-- One bucket: an insertion whose record write fails, a reopening with other parameters and an
insertion into the bucket now in use. -/
theorem history_integrity_one_bucket :
    ∃ earlier later : History,
      Returns (runOps · ⟨⟨freshFile 1, 24⟩, []⟩
        [.insert [0x61] { InsertCalls.succeed with recordWrite := .fails }]) earlier ∧
      Returns (runOps · ⟨⟨freshFile 1, 24⟩, []⟩
        ([.insert [0x61] { InsertCalls.succeed with recordWrite := .fails }] ++
          [.reopen ⟨7⟩, .insert [0x62] .succeed])) later ∧
      later.db.numBuckets = 1 ∧ later.db.id = 2 ∧ later.ids.Pairwise (· < ·) ∧
      ∀ i, i < 1 → (⟨freshFile 1, 24⟩ : Db).bucket i = dbidFree ∧
        (earlier.db.bucket i = dbidFree ∨
          sizeofHeader + sizeofDbid * 1 ≤ earlier.db.bucket i ∧
          later.db.bucket i = earlier.db.bucket i) := by
  apply history_integrity (le_refl 1) (by decide) (openDb_fresh (by decide))
  · simp only [List.singleton_append, List.mem_cons, List.not_mem_nil, or_false,
      forall_eq_or_imp, forall_eq,
      Op.Allowed, List.length_singleton, le_refl, true_and]
    exact ⟨⟨by decide, rfl, rfl, fun _ => .inr rfl, .inr rfl, .inl rfl⟩, by decide, rfl, rfl,
      fun _ => .inr rfl,
      .inr rfl, .inr rfl⟩
  · decide

end Cask.Database
