import Cask.Lib.ByteImage
import Cask.Lib.CircularList

/-! # The status request

`handle_ipc` answers a status request of `caskmon` with a packed header and one packed record
for each worker, which it finds by following the list of workers as often as the worker count
says.  `caskmon` reads the answer with reads of fixed sizes.
-/

namespace Cask.Ipc

open Storage CircularList

/-! ## Data -/

/-- The fields of `struct worker` that are reported. -/
structure WorkerInfo where
  id : UInt64
  running : Bool
  numConns : UInt64
  deriving DecidableEq, Repr

/-- The part of `struct cask` that is reported; `ν` stands for the addresses of workers. -/
structure Registry (ν : Type) where
  startedAt : UInt64
  numWorkers : UInt32
  workers : Links ν
  worker : ν → WorkerInfo

structure Report where
  uptime : UInt64
  numWorkers : UInt32
  workers : List WorkerInfo
  deriving DecidableEq, Repr

def cmdStatus : UInt32 := 0

/-! ## Packed structs -/

/-- `struct ipc_request` -/
def ipcRequest (command payload : UInt32) : List UInt8 :=
  leBytes 4 command.toNat ++ leBytes 4 payload.toNat

/-- `struct ipc_status` -/
def ipcStatus (uptime : UInt64) (numWorkers : UInt32) : List UInt8 :=
  leBytes 8 uptime.toNat ++ leBytes 4 numWorkers.toNat

/-- `struct worker_status` -/
def workerStatus (info : WorkerInfo) : List UInt8 :=
  leBytes 8 info.id.toNat ++ leBytes 1 info.running.toNat ++ leBytes 8 info.numConns.toNat

/-- The word that some bytes hold. -/
def word (bytes : List UInt8) : Nat := wordAt (fun i => bytes.getD i 0) 0 bytes.length

/-! ## `handle_ipc` -/

section Server

variable {ν : Type} [DecidableEq ν]

/-- `LIST_HEAD` -/
def listHead (links : Links ν) : Ptr ν :=
  if links.next .head = .head then .null else links.next .head

/-- The loop over the workers.  `none` is a record read through a pointer to no worker. -/
def writeWorkers (reg : Registry ν) : Nat → Ptr ν → Option (List UInt8)
  | 0, _ => some []
  | left + 1, .node worker =>
    (writeWorkers reg left (reg.workers.next (.node worker))).map (workerStatus (reg.worker worker) ++ ·)
  | _ + 1, _ => none

def uptime (reg : Registry ν) (now : UInt64) : UInt64 := (now - reg.startedAt) / 1000000000

/-- `handle_ipc` at time `now`, after an accepted connection: what it writes in answer to the bytes
it reads. -/
def handleIpc (reg : Registry ν) (now : UInt64) (request : List UInt8) : Option (List UInt8) :=
  if request.length < 8 then some []
  else if word (request.take 4) = cmdStatus.toNat then
    (writeWorkers reg reg.numWorkers.toNat (listHead reg.workers)).map
      (leBytes 4 cmdStatus.toNat ++ ipcStatus (uptime reg now) reg.numWorkers ++ ·)
  else some []

end Server

/-! ## `caskmon` -/

/-- `read(fd, &x, sizeof x) == sizeof x`: the bytes read and the rest of the stream. -/
def read (count : Nat) (stream : List UInt8) : Option (List UInt8 × List UInt8) :=
  if count ≤ stream.length then some (stream.take count, stream.drop count) else none

def decodeWorker (bytes : List UInt8) : WorkerInfo where
  id := UInt64.ofNat (word (bytes.take 8))
  running := word ((bytes.drop 8).take 1) ≠ 0
  numConns := UInt64.ofNat (word (bytes.drop 9))

/-- The loop over the payload. -/
def readWorkers : Nat → List UInt8 → Option (List WorkerInfo × List UInt8)
  | 0, stream => some ([], stream)
  | left + 1, stream => do
    let (bytes, stream) ← read 17 stream
    let (workers, stream) ← readWorkers left stream
    return (decodeWorker bytes :: workers, stream)

/-- The part of `main` behind the request: what it reports, and what it leaves unread. -/
def caskmon (stream : List UInt8) : Option (Report × List UInt8) := do
  let (command, stream) ← read 4 stream
  if word command ≠ cmdStatus.toNat then none
  else do
    let (status, stream) ← read 12 stream
    let numWorkers := UInt32.ofNat (word (status.drop 8))
    let (workers, stream) ← readWorkers numWorkers.toNat stream
    return (⟨UInt64.ofNat (word (status.take 8)), numWorkers, workers⟩, stream)

/-! ## Reading what was written -/

theorem word_leBytes (width value : Nat) : word (leBytes width value) = value % 256 ^ width := by
  rw [word, leBytes_length]
  exact wordAt_leBytes fun i _ => by rw [Nat.zero_add]

theorem read_append {bytes rest : List UInt8} {count : Nat} (length : bytes.length = count) :
    read count (bytes ++ rest) = some (bytes, rest) := by
  subst length
  rw [read, if_pos (by simp), List.take_left, List.drop_left]

theorem workerStatus_length (info : WorkerInfo) : (workerStatus info).length = 17 :=
  by simp [workerStatus]

theorem ofNat_word64 (x : UInt64) : UInt64.ofNat (word (leBytes 8 x.toNat)) = x := by
  have bound := x.toNat_lt
  rw [word_leBytes, Nat.mod_eq_of_lt (by omega)]
  exact UInt64.ofNat_toNat

theorem ofNat_word32 (x : UInt32) : UInt32.ofNat (word (leBytes 4 x.toNat)) = x := by
  have bound := x.toNat_lt
  rw [word_leBytes, Nat.mod_eq_of_lt (by omega)]
  exact UInt32.ofNat_toNat

theorem decodeWorker_workerStatus (info : WorkerInfo) :
    decodeWorker (workerStatus info) = info := by
  obtain ⟨id, running, numConns⟩ := info
  have first : (workerStatus ⟨id, running, numConns⟩).take 8 = leBytes 8 id.toNat := by
    rw [workerStatus, List.append_assoc]
    exact List.take_left' (leBytes_length _ _)
  have rest : (workerStatus ⟨id, running, numConns⟩).drop 8 = leBytes 1 running.toNat ++ leBytes 8 numConns.toNat := by
    rw [workerStatus, List.append_assoc]
    exact List.drop_left' (leBytes_length _ _)
  have flag : ((workerStatus ⟨id, running, numConns⟩).drop 8).take 1 = leBytes 1 running.toNat := by
    rw [rest]
    exact List.take_left' (leBytes_length _ _)
  have last : (workerStatus ⟨id, running, numConns⟩).drop 9 = leBytes 8 numConns.toNat := by
    rw [show 9 = 8 + 1 from rfl, ← List.drop_drop, rest]
    exact List.drop_left' (leBytes_length _ _)
  have isRunning : decide (word (leBytes 1 running.toNat) ≠ 0) = running := by
    cases running <;> rfl
  rw [decodeWorker, first, flag, last, ofNat_word64, ofNat_word64, isRunning]

/-- The reading loop takes the records back, one for each count. -/
theorem readWorkers_workerStatus (infos : List WorkerInfo) (rest : List UInt8) :
    readWorkers infos.length (infos.flatMap workerStatus ++ rest) = some (infos, rest) := by
  induction infos with
  | nil => rfl
  | cons info infos ih =>
    rw [List.length_cons, readWorkers, List.flatMap_cons, List.append_assoc,
      read_append (workerStatus_length info)]
    simp only [Option.bind_eq_bind, Option.bind_some, ih, decodeWorker_workerStatus]
    rfl

section Server

variable {ν : Type} [DecidableEq ν] {reg : Registry ν} {ws : List ν}

omit [DecidableEq ν] in
/-- The writing loop follows the list. -/
theorem writeWorkers_path {p : Ptr ν} (path : Path reg.workers p ws .head) :
    writeWorkers reg ws.length (reg.workers.next p) =
      some ((ws.map reg.worker).flatMap workerStatus) := by
  induction ws generalizing p with
  | nil => rfl
  | cons w ws ih =>
    obtain ⟨here, -, rest⟩ := path
    rw [here, List.length_cons, writeWorkers, ih rest]
    rfl

theorem writeWorkers_circular (circular : Circular reg.workers ws) :
    writeWorkers reg ws.length (listHead reg.workers) =
      some ((ws.map reg.worker).flatMap workerStatus) := by
  cases ws with
  | nil => rfl
  | cons w ws =>
    have head : listHead reg.workers = reg.workers.next .head := by
      rw [listHead, if_neg]
      rw [circular.path.1]
      simp
    rw [head]
    exact writeWorkers_path circular.path

/-- What `caskmon` reports is what the registry holds, and nothing is left unread. -/
theorem caskmon_handleIpc (now : UInt64) (circular : Circular reg.workers ws)
    (count : reg.numWorkers.toNat = ws.length) :
    ∃ stream, handleIpc reg now (ipcRequest cmdStatus 0) = some stream ∧
      caskmon stream = some (⟨uptime reg now, reg.numWorkers, ws.map reg.worker⟩, []) := by
  have request : word ((ipcRequest cmdStatus 0).take 4) = cmdStatus.toNat := by decide
  have answer : handleIpc reg now (ipcRequest cmdStatus 0) = some (leBytes 4 cmdStatus.toNat ++
      ipcStatus (uptime reg now) reg.numWorkers ++ (ws.map reg.worker).flatMap workerStatus) := by
    rw [handleIpc, if_neg (by decide), if_pos request, count, writeWorkers_circular circular]
    rfl
  refine ⟨_, answer, ?_⟩
  have command : word (leBytes 4 cmdStatus.toNat) = cmdStatus.toNat := by decide
  have statusLength : (ipcStatus (uptime reg now) reg.numWorkers).length = 12 := by simp [ipcStatus]
  have first : (ipcStatus (uptime reg now) reg.numWorkers).take 8 = leBytes 8 (uptime reg now).toNat :=
    List.take_left' (leBytes_length _ _)
  have second : (ipcStatus (uptime reg now) reg.numWorkers).drop 8 = leBytes 4 reg.numWorkers.toNat :=
    List.drop_left' (leBytes_length _ _)
  have payload := readWorkers_workerStatus (ws.map reg.worker) []
  rw [List.length_map, List.append_nil] at payload
  rw [caskmon, List.append_assoc, read_append (leBytes_length _ _)]
  simp only [Option.bind_eq_bind, Option.bind_some]
  rw [if_neg (by simp [command]), read_append statusLength]
  simp only [Option.bind_some, first, second, ofNat_word64, ofNat_word32]
  rw [count, payload]
  rfl

end Server

/-- Two workers, the second one stopped. -/
def twoWorkers : Registry Bool :=
  ⟨5, 2, (init.addTail false).addTail true, fun second => ⟨if second then 1 else 0, !second, 7⟩⟩

theorem caskmon_handleIpc_two :
    ∃ stream, handleIpc twoWorkers 3000000005 (ipcRequest cmdStatus 0) = some stream ∧
      caskmon stream = some (⟨3, 2, [⟨0, true, 7⟩, ⟨1, false, 7⟩]⟩, []) := by
  have circular : Circular twoWorkers.workers [false, true] :=
    (circular_init.addTail (by simp)).addTail (by simp)
  exact caskmon_handleIpc 3000000005 circular rfl

end Cask.Ipc
