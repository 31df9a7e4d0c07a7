import Cask.Common
import Cask.Lib.FileCalls
import Cask.Lib.Fuel

/-! # The hash-table database

`db.c` as functions on the byte image of the database file.  The header and the bucket
table are accessed through a `MAP_SHARED` mapping of the pages of the first `mapSize` bytes,
so loads and stores through it are reads and writes of the same image that `pread` and
`pwrite` act on.  Records are appended at the end of the file and chained from their bucket.

File layout (all integers little-endian, structures packed):

* `struct header` at 0: `id` (8 bytes), `num_buckets` (8 bytes);
* the bucket table at 16: `num_buckets` offsets of 8 bytes;
* records: `vlen` (4 bytes), `id` (8), `next` (8), then `vlen` bytes of value.

The outcome of every call into the system is an argument.  A store or load behind the mapped
pages and a remainder by zero stop the process.
-/

namespace Cask.Database

open Storage Fuel

/-- Ways a call does not return: the process is killed, the program gives up because the
database cannot be opened, or the fuel is spent. -/
inductive Stop where
  | sigfpe
  | sigsegv
  | exit
  | fuel
  deriving DecidableEq, Repr

/-! ## Layout -/

def dbidFree : Nat := 0xFFFFFFFFFFFFFFFF

def sizeofHeader : Nat := 16

def sizeofDbid : Nat := 8

/-- `struct record`; `offset` and `val` are not stored. -/
structure Record where
  vlen : Nat
  id : Nat
  next : Nat
  offset : Nat
  val : List UInt8
  deriving DecidableEq, Repr

/-- `offsetof(struct record, offset)`: the fields `vlen`, `id` and `next` come before it. -/
def offsetofOffset : Nat := 4 + 8 + 8

def recHdrSize : Nat := offsetofOffset

/-- The first `REC_HDR_SIZE` bytes of a record. -/
def Record.header (record : Record) : List UInt8 :=
  leBytes 4 record.vlen ++ leBytes 8 record.id ++ leBytes 8 record.next

/-- The record header found in the image at `offset`. -/
def recordAt (img : Image) (offset : Nat) : Record where
  vlen := img.readNat offset 4
  id := img.readNat (offset + 4) 8
  next := img.readNat (offset + 12) 8
  offset := 0
  val := []

/-- `size_t` arithmetic: `sizeof(struct header) + sizeof(dbid_t) * num_buckets`. -/
def tableEnd (numBuckets : Nat) : Nat := (sizeofHeader + sizeofDbid * numBuckets) % 2 ^ 64

/-! ## State -/

/-- An open database: the file behind `fd` and the length of the mapping. -/
structure Db where
  file : Image
  mapSize : Nat

structure DbParams where
  numBuckets : Nat

def pageSize : Nat := 4096

/-- The end of the page that holds the last of `size` bytes. -/
def pageEnd (size : Nat) : Nat := (size + (pageSize - 1)) / pageSize * pageSize

/-- `mmap` maps whole pages, and a page that holds a byte of the file is there as a whole. -/
def Db.Mapped (db : Db) (off : Nat) : Prop :=
  off + sizeofDbid ≤ pageEnd db.mapSize ∧ off + sizeofDbid ≤ pageEnd db.file.size

theorem le_pageEnd (size : Nat) : size ≤ pageEnd size := by
  simp only [pageEnd, pageSize]
  omega

/-- A word inside the mapping and the file. -/
theorem mapped_inside {db : Db} {off : Nat}
    (inside : off + sizeofDbid ≤ db.mapSize ∧ off + sizeofDbid ≤ db.file.size) : db.Mapped off :=
  ⟨le_trans inside.1 (le_pageEnd _), le_trans inside.2 (le_pageEnd _)⟩

instance (db : Db) (off : Nat) : Decidable (db.Mapped off) :=
  -- the pages are only looked at for the words that need them
  if inside : off + sizeofDbid ≤ db.mapSize ∧ off + sizeofDbid ≤ db.file.size then .isTrue (mapped_inside inside)
  else inferInstanceAs (Decidable (_ ∧ _))

/-- Load a word through the mapping.  The last page reads as zero behind the end of the file. -/
def Db.load (db : Db) (off : Nat) : Except Stop Nat :=
  if db.Mapped off then .ok (db.file.readNat off sizeofDbid) else .error .sigsegv

/-- Store a word through the mapping.  What goes behind the end of the file does not reach it. -/
def Db.store (db : Db) (off value : Nat) : Except Stop Db :=
  if db.Mapped off then
    .ok { db with file := db.file.write off ((leBytes sizeofDbid value).take (db.file.size - off)) }
  else .error .sigsegv

/-- The address of `db->buckets[index]` in the mapping. -/
def bucketOff (index : Nat) : Nat := sizeofHeader + sizeofDbid * index

/-! ## Opening and closing -/

/-- Outcomes of the calls made by `open_db`. -/
structure OpenCalls where
  calloc : Bool
  rwlockInit : Bool
  openFile : Bool
  ftruncate : Bool
  read : Outcome
  mmap : Bool

def OpenCalls.succeed : OpenCalls := ⟨true, true, true, true, .full, true⟩

/-- `open_db` on a path that does not exist: create the file, size it, map it and write the
header and an empty bucket table.  The second component is what the path names afterwards. -/
def createDb (params : DbParams) (calls : OpenCalls) : Except Stop (Option Db × Option Image) :=
  if !calls.openFile then .ok (none, none)
  else
    let size := tableEnd params.numBuckets
    -- a size with the sign bit set is negative as off_t
    if !calls.ftruncate || offLimit ≤ size then .ok (none, some Image.empty)
    else
      let file := Image.empty.truncate size
      if !calls.mmap || size = 0 then .ok (none, some file)
      else
        let memsetLen := sizeofDbid * params.numBuckets % 2 ^ 64
        -- a `memset` longer than the mapping
        if pageEnd size < sizeofHeader + memsetLen then .error .sigsegv
        else
          let file := (file.write 0 (leBytes 8 0)).write 8 (leBytes 8 params.numBuckets)
          let file := file.write sizeofHeader (List.replicate memsetLen 0xff)
          .ok (some ⟨file, size⟩, some file)

/-- `open_db` on an existing file: trust the header that is there.  `params` is not used. -/
def openExisting (file : Image) (calls : OpenCalls) : Option Db :=
  if !calls.openFile then none
  else
    match pread file 0 sizeofHeader calls.read with
    | none => none
    | some data =>
      -- a file that is too short for a header
      if data.length ≠ sizeofHeader then none
      else
        let size := tableEnd (file.readNat 8 8)
        if !calls.mmap || size = 0 then none
        else some ⟨file, size⟩

/-- `open_db(path, params)`, where `path` names `disk`. -/
def openDb (disk : Option Image) (params : DbParams) (calls : OpenCalls) :
    Except Stop (Option Db × Option Image) :=
  if !calls.calloc || !calls.rwlockInit then .ok (none, disk)
  else
    match disk with
    | none => createDb params calls
    | some file => .ok (openExisting file calls, some file)

/-- `close_db`: the mapping and the descriptor go away, the file stays. -/
def closeDb (db : Db) : Image := db.file

/-! ## Insertion -/

/-- Outcomes of the calls made by one `db_insert`; `pread i` is the one of the `i`-th `pread`. -/
structure InsertCalls where
  wrlock : Bool
  fstat : Bool
  pread : Nat → Outcome
  linkWrite : Outcome
  malloc : Bool
  recordWrite : Outcome

def InsertCalls.succeed : InsertCalls := ⟨true, true, fun _ => .full, .full, true, .full⟩

def getFileSize (file : Image) (fstat : Bool) : Nat := if fstat then file.size else 0

def writeRecord (file : Image) (record : Record) (malloc : Bool) (outcome : Outcome) :
    Status × Image :=
  if !malloc then (.err, file)
  else
    match pwrite file record.offset (record.header ++ record.val.take record.vlen) outcome with
    | (none, file) => (.err, file)
    -- a short write is not told from a whole one
    | (some _, file) => (.ok, file)

/-- `pread(fd, &rec, REC_HDR_SIZE, offset) == REC_HDR_SIZE`, and then `rec`. -/
def readHeader (file : Image) (offset : Nat) (outcome : Outcome) : Option Record :=
  match pread file offset recHdrSize outcome with
  | none => none
  | some data => if data.length = recHdrSize then some (recordAt file offset) else none

/-- One iteration of the walk to the last link of a bucket, after `count` preads. -/
def lastLinkStep (file : Image) (preads : Nat → Outcome) :
    Nat × Nat → Except Stop (Next (Nat × Nat) (Option Nat))
  | (count, offset) =>
    match readHeader file offset (preads count) with
    | none => .ok (.done none)
    | some record =>
      if record.next ≠ dbidFree then .ok (.again (count + 1, record.next))
      else .ok (.done (some offset))

/-- The offset of the last link of the chain starting at `offset`, `none` if a read failed. -/
def lastLink (file : Image) (preads : Nat → Outcome) (fuel offset : Nat) :
    Except Stop (Option Nat) :=
  loop .fuel (lastLinkStep file preads) fuel (0, offset)

/-- What `db_insert` leaves behind: the database, its return value and `*result` if set. -/
structure InsertResult where
  db : Db
  ret : Status
  result : Option Nat

/-- The end of `db_insert`, once the new record is linked: write it at `pos`. -/
def finishInsert (db : Db) (val : List UInt8) (id pos : Nat) (calls : InsertCalls) : InsertResult :=
  let record : Record := ⟨val.length, id, dbidFree, pos, val⟩
  match writeRecord db.file record calls.malloc calls.recordWrite with
  | (ret, file) => ⟨{ db with file := file }, ret, some id⟩

/-- The branch of `db_insert` for a bucket in use, after the walk to its last link. -/
def linkAndFinish (db : Db) (val : List UInt8) (id pos : Nat) (calls : InsertCalls) :
    Option Nat → InsertResult
  | none => ⟨db, .err, none⟩
  | some last =>
    -- the link goes to the address of the field `offset`, which is not a stored field
    match pwrite db.file ((last + offsetofOffset) % 2 ^ 64) (leBytes 8 pos) calls.linkWrite with
    | (count, file) =>
      if count = some sizeofDbid then finishInsert { db with file := file } val id pos calls
      else ⟨{ db with file := file }, .err, none⟩

/-- `db_insert(db, val, val.length, &result)`. -/
def dbInsert (fuel : Nat) (db : Db) (val : List UInt8) (calls : InsertCalls) :
    Except Stop InsertResult :=
  if !calls.wrlock then .ok ⟨db, .err, none⟩
  else do
    let id ← db.load 0
    -- `db->meta->id++`
    let db ← db.store 0 ((id + 1) % 2 ^ 64)
    let numBuckets ← db.load 8
    if numBuckets = 0 then throw .sigfpe
    let index := id % numBuckets
    let pos := getFileSize db.file calls.fstat
    let offset ← db.load (bucketOff index)
    if offset = dbidFree then
      -- empty bucket: the new entry is the head of the list
      let db ← db.store (bucketOff index) pos
      return finishInsert db val id pos calls
    else
      -- the chain is read through the descriptor, not through the mapping
      let last ← lastLink db.file calls.pread fuel offset
      return linkAndFinish db val id pos calls last

/-! ## Lookup -/

/-- Outcomes of the calls made by one `db_get`. -/
structure GetCalls where
  rdlock : Bool
  pread : Nat → Outcome
  malloc : Bool
  valueRead : Outcome

def GetCalls.succeed : GetCalls := ⟨true, fun _ => .full, true, .full⟩

/-- One iteration of the search for `id` along a chain. -/
def findStep (file : Image) (id : Nat) (calls : GetCalls) :
    Nat × Nat → Except Stop (Next (Nat × Nat) (Option (List UInt8)))
  | (count, offset) =>
    match readHeader file offset (calls.pread count) with
    | none => .ok (.done none)
    | some record =>
      -- the id decides before the link is looked at
      if record.id = id then
        if !calls.malloc then .ok (.done none)
        else
          match pread file ((offset + recHdrSize) % 2 ^ 64) record.vlen calls.valueRead with
          | none => .ok (.done none)
          | some data => .ok (.done (if data.length = record.vlen then some data else none))
      else if record.next ≠ dbidFree then .ok (.again (count + 1, record.next))
      else .ok (.done none)

/-- `db_get(db, id, &vlen)`: the entry with its length, or `none` for `NULL`. -/
def dbGet (fuel : Nat) (db : Db) (id : Nat) (calls : GetCalls) :
    Except Stop (Option (List UInt8)) :=
  if !calls.rdlock then .ok none
  else do
    let numBuckets ← db.load 8
    if numBuckets = 0 then throw .sigfpe
    let offset ← db.load (bucketOff (id % numBuckets))
    if offset = dbidFree then return none
    else loop .fuel (findStep db.file id calls) fuel (0, offset)

end Cask.Database
