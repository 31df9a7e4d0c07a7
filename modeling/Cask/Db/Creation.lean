import Cask.Db.History

/-! # Creating a database

`open_db` makes the file, gives it its size, maps it and only then writes the header.  A
call that fails in between leaves a file without a header on the path, and the next
`open_db` trusts what it finds there: `usable_iff` says that a path survives exactly the
attempts that failed before the file was made.

The size of the table is computed modulo 2^64 and the bucket count is stored as it is.
`addressed_iff` says for which counts the two agree.
-/

namespace Cask.Database

open Storage Fuel

variable {n : Nat} {db : Db} {calls : OpenCalls} {disk disk' : Option Image}

/-! ## Attempts that fail -/

/-- The attempt gets as far as a descriptor. -/
def OpenCalls.Opens (calls : OpenCalls) : Prop :=
  calls.calloc = true ∧ calls.rwlockInit = true ∧ calls.openFile = true

/-- Every call that the attempt makes goes through: `ftruncate` is given a size that is not negative,
`read` gives all the bytes of the header that are there, and `mmap` is called if it gave them all. -/
def AllSucceed (n : Nat) (calls : OpenCalls) (disk : Option Image) : Prop :=
  calls.Opens ∧
    match disk with
    | none => calls.ftruncate = true ∧ tableEnd n < offLimit ∧ calls.mmap = true
    | some file =>
      calls.read.transferred (min sizeofHeader file.size) = some (min sizeofHeader file.size) ∧
        (sizeofHeader ≤ file.size → calls.mmap = true)

/-- Attempts to open a path that did not exist before them, a call of each of them fails, and what
the path names afterwards. -/
inductive Attempts (n : Nat) : List OpenCalls → Option Image → Prop where
  | start : Attempts n [] none
  | attempt {attempts : List OpenCalls} {calls : OpenCalls} {disk disk' : Option Image} {opened : Option Db}
      (before : Attempts n attempts disk) (failed : ¬ AllSucceed n calls disk)
      (returned : openDb disk ⟨n⟩ calls = .ok (opened, disk')) : Attempts n (attempts ++ [calls]) disk'

/-- A database with `n` empty buckets, on which no later operation stops the process. -/
def Usable (n : Nat) (opened : Option Db) : Prop :=
  ∃ db, opened = some db ∧ db.numBuckets = n ∧ (∀ i, i < n → db.bucket i = dbidFree) ∧
    ∀ ops, (∀ op ∈ ops, op.Allowed) → insertCount ops < 2 ^ 64 →
      ∃ later, Returns (runOps · ⟨db, []⟩ ops) later

/-- What a creation leaves on the path when it fails after `open`: a file without a header. -/
def Headless (n : Nat) (file : Image) : Prop :=
  file = .empty ∨ file = Image.empty.truncate (tableEnd n)

/-- An attempt that fails at or before `open` leaves the path alone. -/
theorem openDb_unopened (unopened : ¬ calls.Opens) : openDb none ⟨n⟩ calls = .ok (none, none) := by
  simp only [openDb, createDb]
  split
  · rfl
  · next started =>
    simp only [Bool.or_eq_true, Bool.not_eq_true', not_or, Bool.not_eq_false] at started
    rw [if_pos]
    rw [Bool.not_eq_true', ← Bool.not_eq_true]
    exact fun opened => unopened ⟨started.1, started.2, opened⟩

/-- An attempt that fails after `open` leaves a file without a header. -/
theorem openDb_headless (opens : calls.Opens) (failed : ¬ AllSucceed n calls none) :
    ∃ file, openDb none ⟨n⟩ calls = .ok (none, some file) ∧ Headless n file := by
  have cut : ¬ (calls.ftruncate = true ∧ tableEnd n < offLimit ∧ calls.mmap = true) :=
    fun goes => failed ⟨opens, goes⟩
  obtain ⟨calloc, rwlockInit, openFile⟩ := opens
  simp only [openDb, createDb, calloc, rwlockInit, openFile, Bool.not_true, Bool.or_self,
    Bool.false_eq_true, if_false]
  split
  · exact ⟨_, rfl, .inl rfl⟩
  · next sized =>
    simp only [Bool.or_eq_true, Bool.not_eq_true', decide_eq_true_eq, not_or, Bool.not_eq_false,
      Nat.not_le] at sized
    have unmapped : calls.mmap = false := by
      rw [← Bool.not_eq_true]
      exact fun mapped => cut ⟨sized.1, sized.2, mapped⟩
    rw [if_pos (by simp [unmapped])]
    exact ⟨_, rfl, .inr rfl⟩

/-- Opening a file that exists does not change it. -/
theorem openDb_existing {file : Image} {opened : Option Db}
    (returned : openDb (some file) ⟨n⟩ calls = .ok (opened, disk')) : disk' = some file := by
  simp only [openDb] at returned
  split at returned <;> cases returned <;> rfl

/-- The file is there exactly when an attempt opened it, and it has no header. -/
theorem Attempts.path {attempts : List OpenCalls} (earlier : Attempts n attempts disk) :
    disk = none ∧ (∀ attempt ∈ attempts, ¬ attempt.Opens) ∨
      ∃ file, disk = some file ∧ Headless n file ∧ ∃ attempt ∈ attempts, attempt.Opens := by
  induction earlier with
  | start => exact .inl ⟨rfl, by simp⟩
  | @attempt attempts calls disk disk' opened _ failed returned ih =>
    obtain ⟨rfl, unopened⟩ | ⟨file, rfl, headless, attempt, member, opens⟩ := ih
    · -- nothing on the path yet: the attempt makes the file exactly when it opens it
      by_cases opens : calls.Opens
      · obtain ⟨file, left, headless⟩ := openDb_headless opens failed
        cases left.symm.trans returned
        exact .inr ⟨file, rfl, headless, calls, by simp, opens⟩
      · cases (openDb_unopened opens).symm.trans returned
        refine .inl ⟨rfl, fun attempt member => ?_⟩
        rcases List.mem_append.mp member with old | new
        · exact unopened attempt old
        · rwa [List.mem_singleton.mp new]
    · exact .inr ⟨file, openDb_existing returned, headless, attempt, List.mem_append_left _ member, opens⟩

/-! ## The attempt that succeeds -/

theorem fresh_usable (positive : 1 ≤ n) (fits : sizeofHeader + sizeofDbid * n < offLimit) :
    Usable n (some ⟨freshFile n, sizeofHeader + sizeofDbid * n⟩) := by
  have sound := fresh_sound positive fits
  refine ⟨_, rfl, sound.numBuckets, fun i inRange => freshFile_bucket inRange, fun ops allowed few => ?_⟩
  have fresh : History.Inv n 0 ⟨⟨freshFile n, sizeofHeader + sizeofDbid * n⟩, []⟩ := ⟨sound, .nil, by simp⟩
  obtain ⟨later, run, -⟩ := runOps_inv fresh allowed (by omega)
  exact ⟨later, run⟩

/-- A file without a header counts no buckets. -/
theorem Headless.num {file : Image} (headless : Headless n file) : file.readNat 8 8 = 0 := by
  have zero : ∀ i, file.byte i = 0 := by
    intro i
    obtain rfl | rfl := headless
    · rfl
    · exact ite_self _
  simp [Image.readNat, wordAt, zero]

/-- A file without a header is refused, or opened as a database without buckets. -/
theorem Headless.not_usable {file : Image} (headless : Headless n file) (positive : 1 ≤ n) :
    ¬ Usable n (openExisting file calls) := by
  rintro ⟨db, opened, num, -⟩
  unfold openExisting at opened
  split at opened
  · cases opened
  · split at opened
    · cases opened
    · split at opened
      · cases opened
      · simp only at opened
        split at opened
        · cases opened
        · cases opened
          have none : file.readNat 8 8 = n := num
          rw [headless.num] at none
          omega

/-- The first attempt whose calls all go through gives a usable database exactly when none of the
attempts before it got as far as a descriptor. -/
theorem usable_iff {attempts : List OpenCalls} (positive : 1 ≤ n)
    (noOverflow : sizeofHeader + sizeofDbid * n < 2 ^ 64) (earlier : Attempts n attempts disk)
    (succeed : AllSucceed n calls disk) :
    ∃ opened disk', openDb disk ⟨n⟩ calls = .ok (opened, disk') ∧
      (Usable n opened ↔ ∀ attempt ∈ attempts, ¬ attempt.Opens) := by
  obtain ⟨⟨calloc, rwlockInit, openFile⟩, goes⟩ := succeed
  obtain ⟨rfl, unopened⟩ | ⟨file, rfl, headless, attempt, member, opens⟩ := earlier.path
  · obtain ⟨ftruncate, fits, mmap⟩ := goes
    -- no file yet: the attempt creates the database
    have size : tableEnd n = sizeofHeader + sizeofDbid * n := Nat.mod_eq_of_lt noOverflow
    rw [size] at fits
    refine ⟨_, some (freshFile n), ?_, iff_of_true (fresh_usable positive fits) unopened⟩
    rw [← openDb_fresh fits]
    simp only [openDb, createDb, OpenCalls.succeed, calloc, rwlockInit, openFile, ftruncate, mmap]
  · -- a file without a header is taken for a database
    refine ⟨openExisting file calls, some file, ?_, iff_of_false (headless.not_usable positive) ?_⟩
    · simp [openDb, calloc, rwlockInit]
    · exact fun unopened => unopened attempt member opens

/-- The calls of a creation that fails at `mmap`. -/
def unmapped : OpenCalls := { OpenCalls.succeed with mmap := false }

/-- One bucket: a failed attempt is followed by one in which everything succeeds. -/
theorem attempts_unmapped : Attempts 1 [unmapped] (some (Image.empty.truncate 24)) :=
  .attempt .start (fun succeed => nomatch succeed.2.2.2) rfl

theorem usable_iff_unmapped :
    ∃ opened disk', openDb (some (Image.empty.truncate 24)) ⟨1⟩ .succeed = .ok (opened, disk') ∧
      (Usable 1 opened ↔ ∀ attempt ∈ [unmapped], ¬ attempt.Opens) :=
  usable_iff (le_refl 1) (by decide) attempts_unmapped ⟨⟨rfl, rfl, rfl⟩, rfl, fun _ => rfl⟩

/-- After the failed `mmap` the path names a database without buckets, and the next lookup divides by
zero. -/
theorem not_usable_unmapped :
    Attempts 1 [unmapped] (some (Image.empty.truncate 24)) ∧
      AllSucceed 1 .succeed (some (Image.empty.truncate 24)) ∧
      ∃ db disk', openDb (some (Image.empty.truncate 24)) ⟨1⟩ .succeed = .ok (some db, disk') ∧
        ¬ Usable 1 (some db) ∧ db.numBuckets = 0 ∧ dbGet 1 db 0 .succeed = .error .sigfpe ∧
        dbInsert 1 db [0x61] .succeed = .error .sigfpe := by
  have poisoned : ¬ Usable 1 (openExisting (Image.empty.truncate 24) .succeed) :=
    Headless.not_usable (.inr rfl) (le_refl 1)
  exact ⟨attempts_unmapped, ⟨⟨rfl, rfl, rfl⟩, rfl, fun _ => rfl⟩, _, _, rfl, poisoned, rfl, rfl, rfl⟩

/-! ## Bucket counts that wrap around -/

/-- The size of the table is the one that was meant, and the slot of every id is inside the mapping. -/
structure Addressed (n : Nat) (db : Db) : Prop where
  size : tableEnd n = sizeofHeader + sizeofDbid * n
  slots : ∀ id, id < 2 ^ 64 → bucketOff (id % db.numBuckets) + sizeofDbid ≤ db.mapSize

/-- `ftruncate` and `mmap` succeed for a positive size up to 2^47 and fail for a larger one. -/
def OpenCalls.Assumed (calls : OpenCalls) (size : Nat) : Prop :=
  (0 < size ∧ size ≤ 2 ^ 47 → calls.ftruncate = true ∧ calls.mmap = true) ∧
    (2 ^ 47 < size → calls.ftruncate = false ∧ calls.mmap = false)

/-- A creation that gives a database keeps all slots inside the mapping exactly for the counts
below 2^61. -/
theorem addressed_iff (positive : 1 ≤ n) (wide : n < 2 ^ 64)
    (created : openDb none ⟨n⟩ calls = .ok (some db, disk)) : Addressed n db ↔ n < 2 ^ 61 := by
  obtain ⟨rfl, size, fits⟩ := openDb_created_wrapped created
  have num : (⟨tableFile (n % 2 ^ 61) n, sizeofHeader + sizeofDbid * (n % 2 ^ 61)⟩ : Db).numBuckets = n :=
    (tableFile_header (n % 2 ^ 61) n).2.trans (Nat.mod_eq_of_lt wide)
  constructor
  · rintro ⟨meant, -⟩
    rw [size] at meant
    -- the table that was made has `n % 2 ^ 61` buckets
    have same := Nat.add_left_cancel meant
    simp only [sizeofDbid] at same
    omega
  · intro small
    rw [Nat.mod_eq_of_lt small] at size
    refine ⟨size, fun id _ => ?_⟩
    rw [num, Nat.mod_eq_of_lt small]
    exact bucketOff_lt (Nat.mod_lt id positive)

theorem addressed_iff_one_bucket :
    ∃ db disk, openDb none ⟨1⟩ .succeed = .ok (some db, disk) ∧ (Addressed 1 db ↔ 1 < 2 ^ 61) :=
  ⟨_, _, rfl, addressed_iff (le_refl 1) (by decide) (openDb_fresh (by decide))⟩

/-- With 2^61 buckets the size comes out as 16: every call succeeds, and bucket 0 lies behind the
mapping. -/
theorem not_addressed_wrapped :
    OpenCalls.succeed.Assumed (tableEnd (2 ^ 61)) ∧
      ∃ db disk, openDb none ⟨2 ^ 61⟩ .succeed = .ok (some db, disk) ∧ ¬ Addressed (2 ^ 61) db ∧
        db.mapSize = 16 ∧ bucketOff (0 % db.numBuckets) = 16 := by
  refine ⟨⟨fun _ => ⟨rfl, rfl⟩, fun large => absurd large (by decide)⟩, _, _, rfl, ?_, rfl, rfl⟩
  rintro ⟨meant, -⟩
  exact absurd meant (by decide)

end Cask.Database
