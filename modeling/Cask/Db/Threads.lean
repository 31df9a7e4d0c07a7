import Cask.Db.History
import Cask.Lib.RwLock

/-! # The database and its threads

All workers share one `struct db`, and `db_insert` and `db_get` hold its readers-writer lock while they
are inside.  Here they are cut at every access to the mapping and to the file, so that the accesses of
several threads can be interleaved.  What the workers can see of this is what they would see if every
call ran on its own.
-/

namespace Cask.Database

open Storage Fuel RwLock

/-! ## Statements -/

inductive Call where
  | insert (val : List UInt8) (calls : InsertCalls)
  | get (id : Nat) (calls : GetCalls)

inductive Result where
  | inserted (ret : Status) (result : Option Nat)
  | got (entry : Option (List UInt8))
  deriving DecidableEq, Repr

/-- The next access of `db_insert`, with its variables. -/
inductive InsertPc where
  | readId
  | writeId (id : Nat)
  | readNumBuckets (id : Nat)
  | readSize (id index : Nat)
  | readBucket (id index pos : Nat)
  | fillBucket (id index pos : Nat)
  | readRecord (id pos count offset : Nat)
  | writeLink (id pos last : Nat)
  | writeRecord (id pos : Nat)
  deriving DecidableEq, Repr

/-- The next access of `db_get`, with its variables. -/
inductive GetPc where
  | readNumBuckets
  | readBucket (index : Nat)
  | readRecord (count offset : Nat)
  | readValue (offset vlen : Nat)
  deriving DecidableEq, Repr

def insertStep (val : List UInt8) (calls : InsertCalls) :
    InsertPc × Db → Except Stop (Next (InsertPc × Db) (Result × Db))
  | (.readId, db) => do
    let id ← db.load 0
    return .again (.writeId id, db)
  | (.writeId id, db) => do
    let db ← db.store 0 ((id + 1) % 2 ^ 64)
    return .again (.readNumBuckets id, db)
  | (.readNumBuckets id, db) => do
    let numBuckets ← db.load 8
    if numBuckets = 0 then throw .sigfpe
    return .again (.readSize id (id % numBuckets), db)
  | (.readSize id index, db) => .ok (.again (.readBucket id index (getFileSize db.file calls.fstat), db))
  | (.readBucket id index pos, db) => do
    let offset ← db.load (bucketOff index)
    if offset = dbidFree then return .again (.fillBucket id index pos, db)
    else return .again (.readRecord id pos 0 offset, db)
  | (.fillBucket id index pos, db) => do
    let db ← db.store (bucketOff index) pos
    return .again (.writeRecord id pos, db)
  | (.readRecord id pos count offset, db) =>
    match readHeader db.file offset (calls.pread count) with
    | none => .ok (.done (.inserted .err none, db))
    | some record =>
      if record.next ≠ dbidFree then .ok (.again (.readRecord id pos (count + 1) record.next, db))
      else .ok (.again (.writeLink id pos offset, db))
  | (.writeLink id pos last, db) =>
    match pwrite db.file ((last + offsetofOffset) % 2 ^ 64) (leBytes 8 pos) calls.linkWrite with
    | (count, file) =>
      if count = some sizeofDbid then .ok (.again (.writeRecord id pos, { db with file := file }))
      else .ok (.done (.inserted .err none, { db with file := file }))
  | (.writeRecord id pos, db) =>
    match writeRecord db.file ⟨val.length, id, dbidFree, pos, val⟩ calls.malloc calls.recordWrite with
    | (ret, file) => .ok (.done (.inserted ret (some id), { db with file := file }))

def getStep (id : Nat) (calls : GetCalls) (db : Db) : GetPc → Except Stop (Next GetPc (Option (List UInt8)))
  | .readNumBuckets => do
    let numBuckets ← db.load 8
    if numBuckets = 0 then throw .sigfpe
    return .again (.readBucket (id % numBuckets))
  | .readBucket index => do
    let offset ← db.load (bucketOff index)
    if offset = dbidFree then return .done none
    else return .again (.readRecord 0 offset)
  | .readRecord count offset =>
    match readHeader db.file offset (calls.pread count) with
    | none => .ok (.done none)
    | some record =>
      if record.id = id then
        if !calls.malloc then .ok (.done none)
        else .ok (.again (.readValue offset record.vlen))
      else if record.next ≠ dbidFree then .ok (.again (.readRecord (count + 1) record.next))
      else .ok (.done none)
  | .readValue offset vlen =>
    match pread db.file ((offset + recHdrSize) % 2 ^ 64) vlen calls.valueRead with
    | none => .ok (.done none)
    | some data => .ok (.done (if data.length = vlen then some data else none))

/-- A statement that only reads, in a program over the database. -/
def reading (db : Db) : Next GetPc (Option (List UInt8)) → Next (GetPc × Db) (Result × Db)
  | .again pc => .again (pc, db)
  | .done entry => .done (.got entry, db)

def readStep (id : Nat) (calls : GetCalls) : GetPc × Db → Except Stop (Next (GetPc × Db) (Result × Db))
  | (pc, db) => (getStep id calls db pc).map (reading db)

def Call.Pc : Call → Type
  | .insert _ _ => InsertPc
  | .get _ _ => GetPc

/-- `db_insert` and `db_get` with their lock. -/
def threads : Object Db Call Call.Pc Result Stop where
  writes
    | .insert _ _ => true
    | .get _ _ => false
  enter
    | .insert _ calls => if calls.wrlock then .ok .readId else .error (.inserted .err none)
    | .get _ calls => if calls.rdlock then .ok .readNumBuckets else .error (.got none)
  step
    | .insert val calls => insertStep val calls
    | .get id calls => readStep id calls
  reads op reader pc db := by
    cases op with
    | insert val calls => cases reader
    | get id calls =>
      cases taken : getStep id calls db pc with
      | error stop => simp [readStep, taken, Except.map, Quiet]
      | ok next => cases next <;> simp [readStep, taken, Except.map, reading, Quiet]

/-! ## A call on its own -/

section Alone

variable {fuel : Nat} {db db' : Db} {val : List UInt8} {result : Result × Db}

/-- What a thread gets to see of an insertion, and the database behind it. -/
def InsertResult.seen (res : InsertResult) : Result × Db := (.inserted res.ret res.result, res.db)

section Insert

variable {calls : InsertCalls} {id pos count offset last : Nat}

theorem writeRecord_alone (ended : loop .fuel (insertStep val calls) fuel (.writeRecord id pos, db) = .ok result) :
    result = (finishInsert db val id pos calls).seen := by
  obtain ⟨less, -, ⟨state', taken, -⟩ | taken⟩ := loop_ok ended
  · cases taken
  · cases taken
    rfl

theorem writeLink_alone (ended : loop .fuel (insertStep val calls) fuel (.writeLink id pos last, db) = .ok result) :
    result = (linkAndFinish db val id pos calls (some last)).seen := by
  obtain ⟨less, -, found⟩ := loop_ok ended
  simp only [insertStep, linkAndFinish] at found ⊢
  by_cases whole : (pwrite db.file ((last + offsetofOffset) % 2 ^ 64) (leBytes 8 pos) calls.linkWrite).1 = some sizeofDbid
  · simp only [if_pos whole] at found ⊢
    obtain ⟨state', taken, later⟩ | taken := found
    · cases taken
      exact writeRecord_alone later
    · cases taken
  · simp only [if_neg whole] at found ⊢
    obtain ⟨state', taken, later⟩ | taken := found
    · cases taken
    · cases taken
      rfl

/-- The walk along the chain is `lastLink`. -/
theorem readRecord_alone
    (ended : loop .fuel (insertStep val calls) fuel (.readRecord id pos count offset, db) = .ok result) :
    ∃ last, loop .fuel (lastLinkStep db.file calls.pread) fuel (count, offset) = .ok last ∧
      result = (linkAndFinish db val id pos calls last).seen := by
  induction fuel generalizing count offset with
  | zero => cases ended
  | succ fuel ih =>
    simp only [loop, insertStep, lastLinkStep] at ended ⊢
    cases found : readHeader db.file offset (calls.pread count) with
    | none =>
      simp only [found] at ended
      cases ended
      exact ⟨none, rfl, rfl⟩
    | some record =>
      simp only [found] at ended ⊢
      by_cases more : record.next ≠ dbidFree
      · simp only [if_pos more] at ended ⊢
        exact ih ended
      · simp only [if_neg more] at ended ⊢
        exact ⟨some offset, rfl, writeLink_alone ended⟩

theorem fillBucket_alone {index : Nat}
    (ended : loop .fuel (insertStep val calls) fuel (.fillBucket id index pos, db) = .ok result) :
    ∃ db₁, db.store (bucketOff index) pos = .ok db₁ ∧ result = (finishInsert db₁ val id pos calls).seen := by
  obtain ⟨less, -, ⟨state', taken, later⟩ | taken⟩ := loop_ok ended
  · obtain ⟨db₁, stored, taken⟩ := bind_ok taken
    cases taken
    exact ⟨db₁, stored, writeRecord_alone later⟩
  · obtain ⟨db₁, -, taken⟩ := bind_ok taken
    cases taken

/-- The end of `db_insert`, from the load of the bucket. -/
theorem readBucket_alone {index : Nat}
    (ended : loop .fuel (insertStep val calls) fuel (.readBucket id index pos, db) = .ok result) :
    ∃ offset, db.load (bucketOff index) = .ok offset ∧
      (offset = dbidFree ∧ (∃ db₁, db.store (bucketOff index) pos = .ok db₁ ∧
          result = (finishInsert db₁ val id pos calls).seen) ∨
        offset ≠ dbidFree ∧ ∃ last, lastLink db.file calls.pread fuel offset = .ok last ∧
          result = (linkAndFinish db val id pos calls last).seen) := by
  obtain ⟨less, rfl, ⟨state', taken, later⟩ | taken⟩ := loop_ok ended
  · obtain ⟨offset, loaded, taken⟩ := bind_ok taken
    refine ⟨offset, loaded, ?_⟩
    split at taken
    · next free =>
      cases taken
      exact .inl ⟨free, fillBucket_alone later⟩
    · next used =>
      cases taken
      obtain ⟨last, walked, same⟩ := readRecord_alone later
      exact .inr ⟨used, last, loop_mono walked (Nat.le_succ _), same⟩
  · obtain ⟨offset, -, taken⟩ := bind_ok taken
    split at taken <;> cases taken

/-- The statements in front of the bucket, one by one. -/
theorem located_alone (ended : loop .fuel (insertStep val calls) fuel (.readId, db) = .ok result) :
    ∃ less id db₁ numBuckets, less ≤ fuel ∧ db.load 0 = .ok id ∧ db.store 0 ((id + 1) % 2 ^ 64) = .ok db₁ ∧
      db₁.load 8 = .ok numBuckets ∧ numBuckets ≠ 0 ∧ loop .fuel (insertStep val calls) less
        (.readBucket id (id % numBuckets) (getFileSize db₁.file calls.fstat), db₁) = .ok result := by
  obtain ⟨less₁, rfl, ⟨state₁, taken, ended⟩ | taken⟩ := loop_ok ended
  case inr =>
    obtain ⟨id, -, taken⟩ := bind_ok taken
    cases taken
  obtain ⟨id, loaded, taken⟩ := bind_ok taken
  cases taken
  obtain ⟨less₂, rfl, ⟨state₂, taken, ended⟩ | taken⟩ := loop_ok ended
  case inr =>
    obtain ⟨db₁, -, taken⟩ := bind_ok taken
    cases taken
  obtain ⟨db₁, stored, taken⟩ := bind_ok taken
  cases taken
  obtain ⟨less₃, rfl, ⟨state₃, taken, ended⟩ | taken⟩ := loop_ok ended
  case inr =>
    obtain ⟨numBuckets, -, taken⟩ := bind_ok taken
    split at taken <;> cases taken
  obtain ⟨numBuckets, divisor, taken⟩ := bind_ok taken
  split at taken
  · cases taken
  next positive =>
  cases taken
  obtain ⟨less, rfl, ⟨state₄, taken, ended⟩ | taken⟩ := loop_ok ended
  case inr => cases taken
  cases taken
  exact ⟨less, id, db₁, numBuckets, Nat.le_add_right less 4, loaded, stored, divisor, positive, ended⟩

theorem insert_alone (lock : calls.wrlock = true)
    (ended : loop .fuel (insertStep val calls) fuel (.readId, db) = .ok result) :
    ∃ res, dbInsert fuel db val calls = .ok res ∧ result = res.seen := by
  obtain ⟨less, id, db₁, numBuckets, enough, loaded, stored, divisor, positive, ended⟩ := located_alone ended
  obtain ⟨offset, bucket, branch⟩ := readBucket_alone ended
  simp only [dbInsert, lock, loaded, stored, divisor, bucket, positive, bind, Except.bind, Bool.not_true, if_false,
    Bool.false_eq_true]
  obtain ⟨free, db₂, filled, rfl⟩ | ⟨used, last, walked, rfl⟩ := branch
  · simp only [if_pos free, filled]
    exact ⟨_, rfl, rfl⟩
  · simp only [if_neg used, lastLink, loop_mono walked enough]
    exact ⟨_, rfl, rfl⟩

/-! The other way round: where the call returns, so do its statements. -/

theorem writeRecord_returns (val : List UInt8) (calls : InsertCalls) (id pos : Nat) (db : Db) :
    Returns (loop .fuel (insertStep val calls) · (.writeRecord id pos, db)) (finishInsert db val id pos calls).seen :=
  .loop_done rfl

theorem linkAndFinish_returns (val : List UInt8) (calls : InsertCalls) (id pos last : Nat) (db : Db) :
    Returns (loop .fuel (insertStep val calls) · (.writeLink id pos last, db))
      (linkAndFinish db val id pos calls (some last)).seen := by
  by_cases whole : (pwrite db.file ((last + offsetofOffset) % 2 ^ 64) (leBytes 8 pos) calls.linkWrite).1 = some sizeofDbid
  · simp only [linkAndFinish, if_pos whole]
    exact .loop_again (if_pos whole) (writeRecord_returns ..)
  · simp only [linkAndFinish, if_neg whole]
    exact .loop_done (if_neg whole)

theorem lastLink_returns {found : Option Nat}
    (walked : loop .fuel (lastLinkStep db.file calls.pread) fuel (count, offset) = .ok found) :
    Returns (loop .fuel (insertStep val calls) · (.readRecord id pos count offset, db))
      (linkAndFinish db val id pos calls found).seen := by
  induction fuel generalizing count offset with
  | zero => cases walked
  | succ fuel ih =>
    simp only [loop, lastLinkStep] at walked
    cases read : readHeader db.file offset (calls.pread count) with
    | none =>
      simp only [read] at walked
      cases walked
      exact .loop_done (by simp only [insertStep, read]; rfl)
    | some record =>
      simp only [read] at walked
      by_cases more : record.next ≠ dbidFree
      · simp only [if_pos more] at walked
        exact .loop_again (by simp only [insertStep, read, if_pos more]) (ih walked)
      · simp only [if_neg more] at walked
        cases walked
        exact .loop_again (by simp only [insertStep, read, if_neg more]) (linkAndFinish_returns ..)

theorem insert_returns {res : InsertResult} (lock : calls.wrlock = true) (returned : dbInsert fuel db val calls = .ok res) :
    Returns (loop .fuel (insertStep val calls) · (.readId, db)) res.seen := by
  rw [dbInsert, lock] at returned
  obtain ⟨id, loaded, returned⟩ := bind_ok returned
  obtain ⟨db₁, stored, returned⟩ := bind_ok returned
  obtain ⟨numBuckets, divisor, returned⟩ := bind_ok returned
  split at returned
  · cases returned
  next positive =>
  obtain ⟨offset, bucket, returned⟩ := bind_ok returned
  have first : insertStep val calls (.readId, db) = .ok (.again (.writeId id, db)) := by
    simp only [insertStep, loaded]
    rfl
  have second : insertStep val calls (.writeId id, db) = .ok (.again (.readNumBuckets id, db₁)) := by
    simp only [insertStep, stored]
    rfl
  have third : insertStep val calls (.readNumBuckets id, db₁) = .ok (.again (.readSize id (id % numBuckets), db₁)) := by
    simp only [insertStep, divisor, bind, Except.bind, if_neg positive]
    rfl
  refine .loop_again first (.loop_again second (.loop_again third (.loop_again rfl ?_)))
  split at returned
  · next free =>
    obtain ⟨db₂, filled, returned⟩ := bind_ok returned
    cases returned
    have fifth : insertStep val calls (.readBucket id (id % numBuckets) (getFileSize db₁.file calls.fstat), db₁) =
        .ok (.again (.fillBucket id (id % numBuckets) (getFileSize db₁.file calls.fstat), db₁)) := by
      simp only [insertStep, bucket, bind, Except.bind, if_pos free]
      rfl
    have sixth : insertStep val calls (.fillBucket id (id % numBuckets) (getFileSize db₁.file calls.fstat), db₁) =
        .ok (.again (.writeRecord id (getFileSize db₁.file calls.fstat), db₂)) := by
      simp only [insertStep, filled]
      rfl
    exact .loop_again fifth (.loop_again sixth (writeRecord_returns ..))
  · next used =>
    obtain ⟨last, walked, returned⟩ := bind_ok returned
    cases returned
    have fifth : insertStep val calls (.readBucket id (id % numBuckets) (getFileSize db₁.file calls.fstat), db₁) =
        .ok (.again (.readRecord id (getFileSize db₁.file calls.fstat) 0 offset, db₁)) := by
      simp only [insertStep, bucket, bind, Except.bind, if_neg used]
      rfl
    exact .loop_again fifth (lastLink_returns walked)

end Insert

section Get

variable {calls : GetCalls} {id count offset : Nat} {pc : GetPc} {entry : Option (List UInt8)}

/-- The database goes through `db_get` unchanged. -/
theorem get_reading (ended : loop .fuel (readStep id calls) fuel (pc, db) = .ok result) :
    ∃ entry, result = (.got entry, db) ∧ loop .fuel (getStep id calls db) fuel pc = .ok entry := by
  induction fuel generalizing pc with
  | zero => cases ended
  | succ fuel ih =>
    simp only [loop, readStep] at ended ⊢
    cases taken : getStep id calls db pc with
    | error stop =>
      rw [taken] at ended
      cases ended
    | ok next =>
      rw [taken] at ended
      cases next with
      | again pc' => exact ih ended
      | done entry =>
        cases ended
        exact ⟨entry, rfl, rfl⟩

/-- The search along the chain is the one of `findStep`. -/
theorem find_alone (ended : loop .fuel (getStep id calls db) fuel (.readRecord count offset) = .ok entry) :
    loop .fuel (findStep db.file id calls) fuel (count, offset) = .ok entry := by
  induction fuel generalizing count offset with
  | zero => cases ended
  | succ fuel ih =>
    simp only [loop, getStep, findStep] at ended ⊢
    cases found : readHeader db.file offset (calls.pread count) with
    | none =>
      simp only [found] at ended
      exact ended
    | some record =>
      simp only [found] at ended ⊢
      by_cases mine : record.id = id
      · simp only [if_pos mine] at ended ⊢
        by_cases memory : calls.malloc = true
        · simp only [memory, Bool.not_true, Bool.false_eq_true, if_false] at ended ⊢
          -- one more statement reads the value
          obtain ⟨less, -, last⟩ := loop_ok ended
          simp only [getStep] at last
          cases data : pread db.file ((offset + recHdrSize) % 2 ^ 64) record.vlen calls.valueRead with
          | none =>
            simp only [data] at last
            obtain ⟨state', taken, -⟩ | taken := last
            · cases taken
            · cases taken
              rfl
          | some bytes =>
            simp only [data] at last
            obtain ⟨state', taken, -⟩ | taken := last
            · cases taken
            · cases taken
              rfl
        · simp only [Bool.not_eq_true] at memory
          simp only [memory, Bool.not_false, if_true] at ended ⊢
          exact ended
      · simp only [if_neg mine] at ended ⊢
        by_cases more : record.next ≠ dbidFree
        · simp only [if_pos more] at ended ⊢
          exact ih ended
        · simp only [if_neg more] at ended ⊢
          exact ended

theorem get_alone (lock : calls.rdlock = true)
    (ended : loop .fuel (getStep id calls db) fuel .readNumBuckets = .ok entry) :
    dbGet fuel db id calls = .ok entry := by
  obtain ⟨less₁, rfl, ⟨state₁, taken, ended⟩ | taken⟩ := loop_ok ended
  case inr =>
    obtain ⟨numBuckets, -, taken⟩ := bind_ok taken
    split at taken <;> cases taken
  obtain ⟨numBuckets, divisor, taken⟩ := bind_ok taken
  split at taken
  · cases taken
  next positive =>
  cases taken
  simp only [dbGet, lock, divisor, positive, bind, Except.bind, Bool.not_true, if_false, Bool.false_eq_true]
  obtain ⟨less₂, rfl, ⟨state₂, taken, ended⟩ | taken⟩ := loop_ok ended
  · obtain ⟨offset, bucket, taken⟩ := bind_ok taken
    simp only [bucket]
    split at taken
    · cases taken
    next used =>
    cases taken
    simp only [if_neg used]
    exact loop_mono (find_alone ended) (Nat.le_add_right less₂ 2)
  · obtain ⟨offset, bucket, taken⟩ := bind_ok taken
    simp only [bucket]
    split at taken
    · next free =>
      cases taken
      rw [if_pos free]
      rfl
    · cases taken

theorem readStep_again {pc pc' : GetPc} (taken : getStep id calls db pc = .ok (.again pc')) :
    readStep id calls (pc, db) = .ok (.again (pc', db)) := by
  simp only [readStep, taken, Except.map, reading]

theorem readStep_done (taken : getStep id calls db pc = .ok (.done entry)) :
    readStep id calls (pc, db) = .ok (.done (.got entry, db)) := by
  simp only [readStep, taken, Except.map, reading]

theorem find_returns (found : loop .fuel (findStep db.file id calls) fuel (count, offset) = .ok entry) :
    Returns (loop .fuel (readStep id calls) · (.readRecord count offset, db)) (.got entry, db) := by
  induction fuel generalizing count offset with
  | zero => cases found
  | succ fuel ih =>
    simp only [loop, findStep] at found
    cases read : readHeader db.file offset (calls.pread count) with
    | none =>
      simp only [read] at found
      cases found
      exact .loop_done (readStep_done (by simp only [getStep, read]))
    | some record =>
      simp only [read] at found
      by_cases mine : record.id = id
      · simp only [if_pos mine] at found
        by_cases memory : calls.malloc = true
        · simp only [memory, Bool.not_true, Bool.false_eq_true, if_false] at found
          have header : getStep id calls db (.readRecord count offset) = .ok (.again (.readValue offset record.vlen)) := by
            simp only [getStep, read, if_pos mine, memory, Bool.not_true, Bool.false_eq_true, if_false]
          refine .loop_again (readStep_again header) (.loop_done (readStep_done ?_))
          simp only [getStep]
          cases data : pread db.file ((offset + recHdrSize) % 2 ^ 64) record.vlen calls.valueRead with
          | none =>
            simp only [data] at found
            cases found
            rfl
          | some bytes =>
            simp only [data] at found
            cases found
            rfl
        · simp only [Bool.not_eq_true] at memory
          simp only [memory, Bool.not_false, if_true] at found
          cases found
          exact .loop_done (readStep_done (by simp only [getStep, read, if_pos mine, memory, Bool.not_false, if_true]))
      · simp only [if_neg mine] at found
        by_cases more : record.next ≠ dbidFree
        · simp only [if_pos more] at found
          exact .loop_again (readStep_again (by simp only [getStep, read, if_neg mine, if_pos more])) (ih found)
        · simp only [if_neg more] at found
          cases found
          exact .loop_done (readStep_done (by simp only [getStep, read, if_neg mine, if_neg more]))

theorem get_returns (lock : calls.rdlock = true) (returned : dbGet fuel db id calls = .ok entry) :
    Returns (loop .fuel (readStep id calls) · (.readNumBuckets, db)) (.got entry, db) := by
  rw [dbGet, lock] at returned
  obtain ⟨numBuckets, divisor, returned⟩ := bind_ok returned
  split at returned
  · cases returned
  next positive =>
  obtain ⟨offset, bucket, returned⟩ := bind_ok returned
  have first : getStep id calls db .readNumBuckets = .ok (.again (.readBucket (id % numBuckets))) := by
    simp only [getStep, divisor, bind, Except.bind, if_neg positive]
    rfl
  refine .loop_again (readStep_again first) ?_
  split at returned
  · next free =>
    cases returned
    refine .loop_done (readStep_done ?_)
    simp only [getStep, bucket, bind, Except.bind, if_pos free]
    rfl
  · next used =>
    have second : getStep id calls db (.readBucket (id % numBuckets)) = .ok (.again (.readRecord 0 offset)) := by
      simp only [getStep, bucket, bind, Except.bind, if_neg used]
      rfl
    exact .loop_again (readStep_again second) (find_returns returned)

end Get

/-- What a call does when it runs on its own. -/
def Does : Call → Db → Result → Db → Prop
  | .insert val calls, db, result, db' => ∃ res, Returns (dbInsert · db val calls) res ∧ (result, db') = res.seen
  | .get id calls, db, result, db' => db' = db ∧ ∃ entry, Returns (dbGet · db id calls) entry ∧ result = .got entry

/-- The statements of a call, run one after the other, are the call. -/
theorem does_of_runs {call : Call} {seen : Result} (runs : threads.Runs .fuel call db seen db') :
    Does call db seen db' := by
  cases call with
  | insert val calls =>
    by_cases lock : calls.wrlock = true
    · have entry : threads.enter (.insert val calls) = .ok InsertPc.readId := if_pos lock
      rw [Object.Runs, entry] at runs
      obtain ⟨enough, ended⟩ := runs
      obtain ⟨res, -, same⟩ := insert_alone lock (ended enough (Nat.le_refl _))
      refine ⟨res, ⟨enough, fun fuel bound => ?_⟩, same⟩
      obtain ⟨res', returned, same'⟩ := insert_alone lock (ended fuel bound)
      have whole : res' = res := by
        cases res
        cases res'
        cases same
        cases same'
        rfl
      exact whole ▸ returned
    · have entry : threads.enter (.insert val calls) = .error (.inserted .err none) := if_neg lock
      rw [Object.Runs, entry] at runs
      obtain ⟨rfl, rfl⟩ := runs
      refine ⟨⟨db', .err, none⟩, ⟨0, fun fuel _ => ?_⟩, rfl⟩
      simp only [dbInsert, lock, Bool.not_false, if_true]
  | get id calls =>
    by_cases lock : calls.rdlock = true
    · have entry : threads.enter (.get id calls) = .ok GetPc.readNumBuckets := if_pos lock
      rw [Object.Runs, entry] at runs
      obtain ⟨enough, ended⟩ := runs
      obtain ⟨entry, same, -⟩ := get_reading (ended enough (Nat.le_refl _))
      cases same
      refine ⟨rfl, entry, ⟨enough, fun fuel bound => ?_⟩, rfl⟩
      obtain ⟨entry', same, found⟩ := get_reading (ended fuel bound)
      cases same
      exact get_alone lock found
    · have entry : threads.enter (.get id calls) = .error (.got none) := if_neg lock
      rw [Object.Runs, entry] at runs
      obtain ⟨rfl, rfl⟩ := runs
      refine ⟨rfl, none, ⟨0, fun fuel _ => ?_⟩, rfl⟩
      simp only [dbGet, lock, Bool.not_false, if_true]

/-- Where the call returns, so do its statements. -/
theorem runs_of_does {call : Call} {seen : Result} (does : Does call db seen db') :
    threads.Runs .fuel call db seen db' := by
  cases call with
  | insert val calls =>
    obtain ⟨res, ⟨enough, returned⟩, same⟩ := does
    have returned := returned enough (Nat.le_refl _)
    by_cases lock : calls.wrlock = true
    · have entry : threads.enter (.insert val calls) = .ok InsertPc.readId := if_pos lock
      rw [Object.Runs, entry, same]
      exact insert_returns lock returned
    · have entry : threads.enter (.insert val calls) = .error (.inserted .err none) := if_neg lock
      rw [Object.Runs, entry]
      simp only [dbInsert, lock, Bool.not_false, if_true] at returned
      cases returned
      cases same
      exact ⟨rfl, rfl⟩
  | get id calls =>
    obtain ⟨rfl, entry, ⟨enough, returned⟩, rfl⟩ := does
    have returned := returned enough (Nat.le_refl _)
    by_cases lock : calls.rdlock = true
    · have start : threads.enter (.get id calls) = .ok GetPc.readNumBuckets := if_pos lock
      rw [Object.Runs, start]
      exact get_returns lock returned
    · have start : threads.enter (.get id calls) = .error (.got none) := if_neg lock
      rw [Object.Runs, start]
      simp only [dbGet, lock, Bool.not_false, if_true] at returned
      cases returned
      exact ⟨rfl, rfl⟩

end Alone

/-! ## Interleavings -/

section Interleavings

variable {τ : Type} [DecidableEq τ] {db : Db} {history : List (Event τ Call Result)}
  {w : World Db Call Call.Pc Result τ}

/-- However the accesses of the threads are interleaved, what they see is what they would see if every
call ran as a whole at some moment between its beginning and its return; and while no insertion is
under way, the file is the one that these calls have made. -/
theorem database_linearizable (trace : Trace (Step threads) (World.quiet db) history w) :
    ∃ a, Trace (AtomicStep Does) (Atomic.quiet db) history a ∧
      ((∀ t val calls pc, w.place t ≠ .inside (.insert val calls) pc) → w.state = a.state) := by
  obtain ⟨a, atomic, holds⟩ := linearizable .fuel trace
  refine ⟨a, atomic.mono fun _ _ _ => AtomicStep.mono fun _ _ _ _ => does_of_runs, fun free => ?_⟩
  apply holds.shared
  intro t op pc inside
  cases op with
  | insert val calls => exact absurd inside (free t val calls pc)
  | get id calls => rfl

def insertA : Call := .insert [0x61] .succeed

def getFirst : Call := .get 0 .succeed

/-- A lookup that runs while an insertion waits for the lock. -/
theorem trace_overlap : ∃ w : World Db Call Call.Pc Result Nat, Trace (Step threads) (World.quiet ⟨freshFile 1, 24⟩)
    [.call 0 insertA, .call 1 getFirst, .ret 1 getFirst (.got none)] w := by
  have quiet : Trace (Step threads) (World.quiet ⟨freshFile 1, 24⟩) []
      (World.quiet ⟨freshFile 1, 24⟩ : World Db Call Call.Pc Result Nat) := .start
  have called := (quiet.event (.call (t := 0) insertA rfl)).event (.call (t := 1) getFirst rfl)
  have locked := called.silent (.lock (t := 1) rfl rfl fun t held here => by
    -- nobody holds the lock
    by_cases second : t = 1
    · subst second
      cases here
    · rw [goto_of_ne second] at here
      by_cases first : t = 0
      · subst first
        cases here
      · rw [goto_of_ne first] at here
        cases here)
  have read := locked.silent (.run (t := 1) rfl rfl)
  have finished := read.silent (.finish (t := 1) rfl rfl)
  have unlocked := finished.silent (.unlock (t := 1) rfl)
  exact ⟨_, unlocked.event (.ret (t := 1) rfl)⟩

theorem database_linearizable_overlap : ∃ a : Atomic Db Call Result Nat,
    Trace (AtomicStep Does) (Atomic.quiet ⟨freshFile 1, 24⟩)
      [.call 0 insertA, .call 1 getFirst, .ret 1 getFirst (.got none)] a := by
  obtain ⟨w, trace⟩ := trace_overlap
  obtain ⟨a, atomic, -⟩ := database_linearizable trace
  exact ⟨a, atomic⟩

end Interleavings

end Cask.Database
