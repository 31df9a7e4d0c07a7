import Cask.Common
import Cask.Server.Ipc

/-! # The registry of workers

`start_worker` enters a worker into the list of workers and counts it, `destroy_worker` takes
it out again, and `handle_ipc` follows the list as often as the count says.  Here each of them
is one step, as the worker lock makes them; a call of `start_worker` is given the outcomes of
the calls that it makes.  The count is exact as long as no thread fails to start: the worker of
such a thread is taken out of the list and is counted all the same.
-/

namespace Cask.Workers

open CircularList Ipc

/-! ## Data -/

/-- The part of `g_cask` that `worker_lock` protects, with the ids of the workers; `ν` stands for
the addresses of workers. -/
structure GCask (ν : Type) where
  currentId : UInt64
  numWorkers : UInt32
  workers : Links ν
  id : ν → UInt64

/-- Outcomes of the calls made by one `start_worker`. -/
structure StartCalls (ν : Type) where
  socket : Bool
  reuseAddr : Bool
  reusePort : Bool
  bind : Bool
  listen : Bool
  calloc : Option ν
  createEventBase : Bool
  addEvent : Bool
  pthreadCreate : Bool

/-- All calls go through, and `calloc` gives `worker`. -/
def StartCalls.succeed {ν : Type} (worker : ν) : StartCalls ν :=
  ⟨true, true, true, true, true, some worker, true, true, true⟩

variable {ν : Type} [DecidableEq ν]

/-! ## Operations -/

/-- `worker->id = g_cask->current_id++` -/
def GCask.number (cask : GCask ν) (worker : ν) : GCask ν :=
  { cask with
    id := Function.update cask.id worker cask.currentId
    currentId := cask.currentId + 1 }

/-- `list_add_entry_tail(&g_cask->workers, worker, node)` -/
def GCask.link (cask : GCask ν) (worker : ν) : GCask ν :=
  { cask with workers := cask.workers.addTail worker }

/-- `list_del_entry(worker, node)` -/
def GCask.unlink (cask : GCask ν) (worker : ν) : GCask ν :=
  { cask with workers := cask.workers.del worker }

/-- `g_cask->num_workers++` -/
def GCask.count (cask : GCask ν) : GCask ν := { cask with numWorkers := cask.numWorkers + 1 }

/-- `g_cask->num_workers--` -/
def GCask.uncount (cask : GCask ν) : GCask ν := { cask with numWorkers := cask.numWorkers - 1 }

/-- The part of `start_worker` in front of the lock.  Every failure gives back what was taken, and
`start_worker` returns `ERR`. -/
def setUpWorker (calls : StartCalls ν) : Option ν :=
  if !calls.socket then none
  else if !calls.reuseAddr then none
  else if !calls.reusePort then none
  else if !calls.bind then none
  else if !calls.listen then none
  else
    match calls.calloc with
    | none => none
    | some worker =>
      if !calls.createEventBase then none
      else if !calls.addEvent then none
      else some worker

/-- The part of `start_worker` from `pthread_create` to the unlock. -/
def createThread (calls : StartCalls ν) (cask : GCask ν) (worker : ν) : Status × GCask ν :=
  if calls.pthreadCreate then (.ok, cask.count)
  -- the worker is unlinked and freed, and then counted
  else (.err, (cask.unlink worker).count)

/-- `start_worker()` -/
def startWorker (calls : StartCalls ν) (cask : GCask ν) : Status × GCask ν :=
  match setUpWorker calls with
  | none => (.err, cask)
  | some worker => createThread calls ((cask.number worker).link worker) worker

/-- `destroy_worker(worker)`, from the lock to the unlock. -/
def destroyWorker (cask : GCask ν) (worker : ν) : GCask ν := cask.uncount.unlink worker

/-- What `handle_ipc` reads; `running` and `num_conns` are the business of the workers. -/
def GCask.registry (cask : GCask ν) (startedAt : UInt64) (running : ν → Bool) (numConns : ν → UInt64) :
    Registry ν :=
  ⟨startedAt, cask.numWorkers, cask.workers, fun worker => ⟨cask.id worker, running worker, numConns worker⟩⟩

/-! ## Exact counts -/

/-- The count is the number of workers in the list, and their ids differ. -/
def Exact (cask : GCask ν) : Prop :=
  ∃ ws, Circular cask.workers ws ∧ cask.numWorkers.toNat = ws.length ∧ (ws.map cask.id).Nodup

/-- The next worker wraps no counter around. -/
def Room (cask : GCask ν) : Prop :=
  cask.numWorkers.toNat + 1 < 2 ^ 32 ∧ cask.currentId.toNat + 1 < 2 ^ 64

/-- The list holds the workers `ws`, and their ids have been handed out. -/
structure Listed (cask : GCask ν) (ws : List ν) : Prop where
  circular : Circular cask.workers ws
  count : cask.numWorkers.toNat = ws.length
  distinct : (ws.map cask.id).Nodup
  used : ∀ worker ∈ ws, cask.id worker < cask.currentId

section Listed

variable {cask : GCask ν} {ws : List ν} {worker : ν}

omit [DecidableEq ν] in
theorem Listed.exact (listed : Listed cask ws) : Exact cask :=
  ⟨ws, listed.circular, listed.count, listed.distinct⟩

omit [DecidableEq ν] in
theorem count_toNat (room : Room cask) : cask.count.numWorkers.toNat = cask.numWorkers.toNat + 1 := by
  have bound := room.1
  simp only [GCask.count, UInt32.toNat_add, UInt32.reduceToNat]
  omega

theorem Listed.started (listed : Listed cask ws) (room : Room cask) (fresh : worker ∉ ws) :
    Listed ((cask.number worker).link worker).count (ws ++ [worker]) := by
  have others : ∀ other ∈ ws, (cask.number worker).id other = cask.id other := by
    intro other member
    have differs : other ≠ worker := fun same => fresh (same ▸ member)
    exact Function.update_of_ne differs ..
  have ids : (ws ++ [worker]).map (cask.number worker).id = ws.map cask.id ++ [cask.currentId] := by
    rw [List.map_append, List.map_congr_left others]
    simp [GCask.number]
  have next : cask.currentId < cask.currentId + 1 := by
    have bound := room.2
    simp only [UInt64.lt_iff_toNat_lt, UInt64.toNat_add, UInt64.reduceToNat]
    omega
  refine ⟨listed.circular.addTail fresh, ?_, ?_, ?_⟩
  · have counted := count_toNat room
    rw [List.length_append, List.length_singleton, ← listed.count]
    exact counted
  · change ((ws ++ [worker]).map (cask.number worker).id).Nodup
    rw [ids]
    refine List.nodup_append.mpr ⟨listed.distinct, by simp, ?_⟩
    -- the ids in use are all below the next one
    intro first early second new same
    obtain ⟨other, member, rfl⟩ := List.mem_map.mp early
    rw [List.mem_singleton.mp new] at same
    exact absurd (listed.used other member) (by simp [same])
  · intro other member
    change (cask.number worker).id other < cask.currentId + 1
    obtain early | new := List.mem_append.mp member
    · rw [others other early]
      exact UInt64.lt_trans (listed.used other early) next
    · obtain rfl := List.mem_singleton.mp new
      simpa [GCask.number] using next

theorem Listed.destroyed (listed : Listed cask ws) (member : worker ∈ ws) :
    Listed (destroyWorker cask worker) (ws.erase worker) := by
  have some : 0 < ws.length := List.length_pos_of_mem member
  have kept : ∀ other ∈ ws.erase worker, other ∈ ws := fun other => List.mem_of_mem_erase
  refine ⟨listed.circular.del member, ?_, ?_, fun other within => listed.used other (kept other within)⟩
  · have count := listed.count
    have bound : (1 : UInt32) ≤ cask.numWorkers := by
      rw [UInt32.le_iff_toNat_le, count]
      exact some
    change (cask.numWorkers - 1).toNat = (ws.erase worker).length
    rw [UInt32.toNat_sub_of_le _ _ bound, count, List.length_erase_of_mem member]
    rfl
  · exact listed.distinct.sublist (List.erase_sublist.map _)

end Listed

/-- With an exact count, `handle_ipc` reads no record through a pointer to no worker. -/
theorem Exact.handleIpc_ne_none {cask : GCask ν} (exact : Exact cask)
    (startedAt now : UInt64) (running : ν → Bool) (numConns : ν → UInt64) (request : List UInt8) :
    handleIpc (cask.registry startedAt running numConns) now request ≠ none := by
  obtain ⟨ws, circular, count, -⟩ := exact
  have listed : Circular (cask.registry startedAt running numConns).workers ws := circular
  have records : (cask.registry startedAt running numConns).numWorkers.toNat = ws.length := count
  rw [handleIpc, records, writeWorkers_circular listed]
  split
  · simp
  · split <;> simp

/-! ## One call -/

/-- The call keeps the count exact, and one that returns `ERR` leaves the count and the list as they
were. -/
structure Counts (calls : StartCalls ν) (cask : GCask ν) : Prop where
  exact : Exact (startWorker calls cask).2
  failed : (startWorker calls cask).1 = .err →
    (startWorker calls cask).2.numWorkers = cask.numWorkers ∧
      ∀ ws, Circular cask.workers ws → Circular (startWorker calls cask).2.workers ws

section Calls

variable {calls : StartCalls ν} {cask : GCask ν} {ws : List ν} {worker : ν}

/-- The thread of the worker starts, if it comes to that. -/
def ThreadStarts (calls : StartCalls ν) : Prop :=
  ∀ worker, setUpWorker calls = some worker → calls.pthreadCreate = true

theorem startWorker_none (cask : GCask ν) (failed : setUpWorker calls = none) :
    startWorker calls cask = (.err, cask) := by
  rw [startWorker, failed]

theorem startWorker_created (cask : GCask ν) (set : setUpWorker calls = some worker)
    (created : calls.pthreadCreate = true) :
    startWorker calls cask = (.ok, ((cask.number worker).link worker).count) := by
  rw [startWorker, set]
  simp [createThread, created]

theorem startWorker_refused (cask : GCask ν) (set : setUpWorker calls = some worker)
    (refused : calls.pthreadCreate = false) :
    startWorker calls cask = (.err, (((cask.number worker).link worker).unlink worker).count) := by
  rw [startWorker, set]
  simp [createThread, refused]

theorem counts_iff (listed : Listed cask ws) (room : Room cask)
    (fresh : ∀ worker, setUpWorker calls = some worker → worker ∉ ws) :
    Counts calls cask ↔ ThreadStarts calls := by
  constructor
  · intro counts worker set
    by_contra refused
    rw [Bool.not_eq_true] at refused
    obtain ⟨-, failed⟩ := counts
    rw [startWorker_refused cask set refused] at failed
    -- `num_workers++` is reached on the way out
    have same := congrArg UInt32.toNat (failed rfl).1
    have counted := count_toNat room
    simp only [GCask.count, GCask.unlink, GCask.link, GCask.number] at same counted
    omega
  · intro starts
    cases set : setUpWorker calls with
    | none =>
      have result := startWorker_none cask set
      exact ⟨by rw [result]; exact listed.exact, by rw [result]; exact fun _ => ⟨rfl, fun _ => id⟩⟩
    | some worker =>
      have result := startWorker_created cask set (starts worker set)
      refine ⟨?_, by simp [result]⟩
      rw [result]
      exact (listed.started room (fresh worker set)).exact

end Calls

/-! ## Sequences of calls -/

/-- The registry, and the workers that are in it with a thread of their own. -/
structure Atomic (ν : Type) where
  cask : GCask ν
  started : ν → Bool

/-- A call of `start_worker`. -/
def Atomic.start (t : Atomic ν) (calls : StartCalls ν) : Atomic ν where
  cask := (startWorker calls t.cask).2
  started :=
    match setUpWorker calls with
    | none => t.started
    | some worker => if calls.pthreadCreate then Function.update t.started worker true else t.started

/-- A call of `destroy_worker`. -/
def Atomic.destroy (t : Atomic ν) (worker : ν) : Atomic ν where
  cask := destroyWorker t.cask worker
  started := Function.update t.started worker false

/-- A call of `start_worker` that `allowed` allows and for which `calloc` gives free memory, or the
end of a worker that was started. -/
inductive AtomicStep (allowed : StartCalls ν → GCask ν → Prop) : Atomic ν → Atomic ν → Prop where
  | start {t : Atomic ν} {calls : StartCalls ν} (meets : allowed calls t.cask)
      (fresh : ∀ worker, setUpWorker calls = some worker → t.started worker = false) :
      AtomicStep allowed t (t.start calls)
  | destroy {t : Atomic ν} {worker : ν} (there : t.started worker = true) :
      AtomicStep allowed t (t.destroy worker)

theorem Atomic.start_started {t : Atomic ν} {calls : StartCalls ν} {worker : ν}
    (set : setUpWorker calls = some worker) (other : ν) :
    (t.start calls).started other = true ↔
      (other = worker ∧ calls.pthreadCreate = true) ∨ t.started other = true := by
  by_cases same : other = worker <;> cases created : calls.pthreadCreate <;>
    simp [Atomic.start, set, created, same]

/-- The thread starts, and no counter wraps around. -/
def Clean (calls : StartCalls ν) (cask : GCask ν) : Prop :=
  ∀ worker, setUpWorker calls = some worker → calls.pthreadCreate = true ∧ Room cask

/-- The list holds the workers that were started. -/
def Registered (t : Atomic ν) : Prop :=
  ∃ ws, Listed t.cask ws ∧ ∀ worker, worker ∈ ws ↔ t.started worker = true

theorem Registered.start {t : Atomic ν} {calls : StartCalls ν} (registered : Registered t)
    (clean : Clean calls t.cask)
    (fresh : ∀ worker, setUpWorker calls = some worker → t.started worker = false) :
    Registered (t.start calls) := by
  obtain ⟨ws, listed, members⟩ := registered
  cases set : setUpWorker calls with
  | none =>
    refine ⟨ws, ?_, ?_⟩
    · simpa [Atomic.start, startWorker_none t.cask set] using listed
    · simpa [Atomic.start, set] using members
  | some worker =>
    obtain ⟨created, room⟩ := clean worker set
    have absent : worker ∉ ws := by simp [members, fresh worker set]
    refine ⟨ws ++ [worker], ?_, fun other => ?_⟩
    · simpa [Atomic.start, startWorker_created t.cask set created] using listed.started room absent
    · simp [Atomic.start_started set, created, members, or_comm]

theorem Registered.destroy {t : Atomic ν} {worker : ν} (registered : Registered t)
    (there : t.started worker = true) : Registered (t.destroy worker) := by
  obtain ⟨ws, listed, members⟩ := registered
  refine ⟨ws.erase worker, listed.destroyed ((members worker).mpr there), fun other => ?_⟩
  rw [listed.circular.distinct.mem_erase_iff, members]
  by_cases same : other = worker
  · simp [Atomic.destroy, same]
  · simp [Atomic.destroy, same]

theorem Registered.step {t t' : Atomic ν} (registered : Registered t) (step : AtomicStep Clean t t') :
    Registered t' := by
  cases step with
  | start meets fresh => exact registered.start meets fresh
  | destroy there => exact registered.destroy there

end Cask.Workers
