import Cask.Worker.Registry

/-! # Workers that come and go

`start_worker` statement by statement, interleaved with the workers that it has started and
that take themselves out of the registry in `destroy_worker`.  A worker may come to its end at
any time, also before `start_worker` has counted it.  The worker lock makes one step of each
critical section: whenever it is free, the registry is the one of a sequence of whole calls.
-/

namespace Cask.Workers

open CircularList Ipc

/-! ## Data -/

/-- The next statement of `start_worker`: the lock, the id, the entry into the list,
`pthread_create`, the removal after its failure, the count, and the unlock. -/
inductive Place where
  | ready
  | locked
  | numbered
  | listed
  | refused
  | counting
  | unlocking
  deriving DecidableEq, Repr

/-- `main` is in `start_worker`, with a worker that is set up and the outcomes of its calls, or
somewhere else. -/
inductive MainPc (ν : Type) where
  | idle
  | within (place : Place) (calls : StartCalls ν) (worker : ν)

/-- The place of a worker's thread: in `worker_proc`, or in `destroy_worker` in front of the lock, of
the count, of `list_del`, of the unlock and of `free`.  `absent` is a worker without a thread. -/
inductive ThreadPc where
  | absent
  | running
  | stopping
  | locked
  | uncounted
  | unlinked
  | unlocked
  deriving DecidableEq, Repr

inductive Owner (ν : Type) where
  | main
  | worker (worker : ν)
  deriving DecidableEq

/-- The registry, the holder of `worker_lock`, the places of the threads, and the memory in use for
workers. -/
structure World (ν : Type) where
  cask : GCask ν
  owner : Option (Owner ν)
  main : MainPc ν
  thread : ν → ThreadPc
  allocated : ν → Bool

inductive Action (ν : Type) where
  | call (calls : StartCalls ν)
  | main
  | worker (worker : ν)

variable {ν : Type} [DecidableEq ν]

/-! ## Steps -/

/-- `start_worker` up to the lock.  `calloc` gives memory that is not in use. -/
def callStep (s : World ν) (calls : StartCalls ν) : Option (World ν) :=
  match s.main with
  | .within _ _ _ => none
  | .idle =>
    if calls.calloc.any s.allocated then none
    else
      match setUpWorker calls with
      | none => some s
      | some worker =>
        some { s with
          main := .within .ready calls worker
          allocated := Function.update s.allocated worker true }

/-- The next statement of `start_worker`; `none` while another thread has the lock. -/
def mainStep (s : World ν) : Option (World ν) :=
  match s.main with
  | .idle => none
  | .within .ready calls worker =>
    if s.owner = none then some { s with main := .within .locked calls worker, owner := some .main } else none
  | .within .locked calls worker =>
    some { s with main := .within .numbered calls worker, cask := s.cask.number worker }
  | .within .numbered calls worker =>
    some { s with main := .within .listed calls worker, cask := s.cask.link worker }
  | .within .listed calls worker =>
    if calls.pthreadCreate then
      some { s with
        main := .within .counting calls worker
        thread := Function.update s.thread worker .running }
    else some { s with main := .within .refused calls worker }
  | .within .refused calls worker =>
    some { s with
      main := .within .counting calls worker
      cask := s.cask.unlink worker
      allocated := Function.update s.allocated worker false }
  | .within .counting calls worker =>
    some { s with main := .within .unlocking calls worker, cask := s.cask.count }
  | .within .unlocking _ _ => some { s with main := .idle, owner := none }

def World.goto (s : World ν) (worker : ν) (pc : ThreadPc) : World ν :=
  { s with thread := Function.update s.thread worker pc }

@[simp, grind =]
theorem goto_thread (s : World ν) (worker other : ν) (pc : ThreadPc) :
    (s.goto worker pc).thread other = if other = worker then pc else s.thread other :=
  Function.update_apply ..

@[simp]
theorem goto_main (s : World ν) (worker : ν) (pc : ThreadPc) : (s.goto worker pc).main = s.main := rfl

/-- The next statement of a worker's thread; `none` while another thread has the lock. -/
def workerStep (s : World ν) (worker : ν) : Option (World ν) :=
  match s.thread worker with
  | .absent => none
  | .running => some (s.goto worker .stopping)
  | .stopping =>
    if s.owner = none then some { s.goto worker .locked with owner := some (.worker worker) } else none
  | .locked => some { s.goto worker .uncounted with cask := s.cask.uncount }
  | .uncounted => some { s.goto worker .unlinked with cask := s.cask.unlink worker }
  | .unlinked => some { s.goto worker .unlocked with owner := none }
  | .unlocked => some { s.goto worker .absent with allocated := Function.update s.allocated worker false }

def step (s : World ν) : Action ν → Option (World ν)
  | .call calls => callStep s calls
  | .main => mainStep s
  | .worker worker => workerStep s worker

/-- The world before the first call of `start_worker`. -/
def boot : World ν where
  cask := ⟨0, 0, init, fun _ => 0⟩
  owner := none
  main := .idle
  thread := fun _ => .absent
  allocated := fun _ => false

/-- `start_worker` takes the lock only with outcomes that are allowed for the registry it finds. -/
def Permits (allowed : StartCalls ν → GCask ν → Prop) (s : World ν) (a : Action ν) : Prop :=
  ∀ calls worker, a = .main → s.main = .within .ready calls worker → allowed calls s.cask

/-- The worlds of the interleavings. -/
inductive Reach (allowed : StartCalls ν → GCask ν → Prop) : World ν → Prop where
  | boot : Reach allowed boot
  | step {s s' : World ν} (earlier : Reach allowed s) (a : Action ν) (meets : Permits allowed s a)
      (taken : step s a = some s') : Reach allowed s'

/-! ## The lock -/

/-- The thread of a worker has not given the lock back after taking the worker out. -/
@[grind] def ThreadPc.Registered : ThreadPc → Prop
  | .absent => False
  | .unlocked => False
  | _ => True

@[grind] def ThreadPc.Critical : ThreadPc → Prop
  | .locked => True
  | .uncounted => True
  | .unlinked => True
  | _ => False

@[grind] def MainPc.Critical : MainPc ν → Prop
  | .idle => False
  | .within place _ _ => place ≠ .ready

/-- `start_worker` has not come past `pthread_create` and what follows its failure. -/
@[grind] def Place.Early : Place → Prop
  | .counting => False
  | .unlocking => False
  | _ => True

/-- `start_worker` has a worker without a thread. -/
@[grind] def MainPc.Prepares (worker : ν) : MainPc ν → Prop
  | .idle => False
  | .within place calls other => other = worker ∧ (place.Early ∨ calls.pthreadCreate = false)

/-- The thread is there, and `start_worker` still has the lock. -/
@[grind] def MainPc.Creates (worker : ν) : MainPc ν → Prop
  | .idle => False
  | .within place calls other => other = worker ∧ ¬ place.Early ∧ calls.pthreadCreate = true

omit [DecidableEq ν] in
@[grind →]
theorem MainPc.Creates.critical {worker : ν} {main : MainPc ν} (creates : main.Creates worker) :
    main.Critical := by
  cases main with
  | idle => exact creates
  | within place calls other =>
    rintro rfl
    exact creates.2.1 trivial

/-- The lock is held by the thread that is in a critical section, and memory in use is not given to
another worker. -/
structure Disciplined (s : World ν) : Prop where
  mainLock : s.owner = some .main ↔ s.main.Critical
  workerLock : ∀ worker, s.owner = some (.worker worker) ↔ (s.thread worker).Critical
  set : ∀ place calls worker, s.main = .within place calls worker → setUpWorker calls = some worker
  refused : ∀ calls worker, s.main = .within .refused calls worker → calls.pthreadCreate = false
  prepared : ∀ worker, s.main.Prepares worker → s.thread worker = .absent
  created : ∀ worker, s.main.Creates worker → (s.thread worker).Registered
  held : ∀ place calls worker, s.main = .within place calls worker → place.Early →
    s.allocated worker = true
  allocated : ∀ worker, s.thread worker ≠ .absent → s.allocated worker = true

variable {s s' : World ν} {worker : ν} {calls : StartCalls ν}

omit [DecidableEq ν] in
theorem setUpWorker_calloc (set : setUpWorker calls = some worker) : calls.calloc = some worker := by
  unfold setUpWorker at set
  grind

omit [DecidableEq ν] in
theorem disciplined_boot : Disciplined (boot : World ν) := by
  constructor <;>
    simp [boot, ThreadPc.Critical, MainPc.Critical, MainPc.Prepares, MainPc.Creates]

omit [DecidableEq ν] in
/-- Memory that is not in use belongs to no thread. -/
theorem Disciplined.absent (disciplined : Disciplined s) (unused : s.allocated worker = false) :
    s.thread worker = .absent := by
  by_contra thread
  rw [disciplined.allocated worker thread] at unused
  cases unused

/-- A call of `start_worker` fails in front of the lock, or has set up a worker without a thread. -/
theorem callStep_cases (taken : callStep s calls = some s') :
    s' = s ∨ ∃ worker, s.main = .idle ∧ setUpWorker calls = some worker ∧ s.allocated worker = false ∧
      s' = { s with
        main := .within .ready calls worker
        allocated := Function.update s.allocated worker true } := by
  unfold callStep at taken
  split at taken
  · cases taken
  · next idle =>
    split at taken
    · cases taken
    · next free =>
      split at taken
      · cases taken
        exact .inl rfl
      · next worker set =>
        cases taken
        exact .inr ⟨worker, idle, set, by simpa [setUpWorker_calloc set] using free, rfl⟩

theorem Disciplined.call_step (disciplined : Disciplined s) (taken : callStep s calls = some s') :
    Disciplined s' := by
  obtain rfl | ⟨worker, idle, set, unused, rfl⟩ := callStep_cases taken
  · exact disciplined
  · have noThread := disciplined.absent unused
    obtain ⟨mainLock, workerLock, -, -, -, -, -, allocated⟩ := disciplined
    constructor <;> grind [Function.update_apply]

theorem Disciplined.main_step (disciplined : Disciplined s) (taken : mainStep s = some s') :
    Disciplined s' := by
  obtain ⟨mainLock, workerLock, set, refused, prepared, created, held, allocated⟩ := disciplined
  unfold mainStep at taken
  split at taken
  · cases taken
  · split at taken
    · cases taken
      constructor <;> grind
    · cases taken
  · cases taken
    constructor <;> grind
  · cases taken
    constructor <;> grind
  · split at taken
    · cases taken
      constructor <;> grind [Function.update_apply]
    · cases taken
      constructor <;> grind
  · cases taken
    constructor <;> grind [Function.update_apply]
  · cases taken
    constructor <;> grind
  · cases taken
    constructor <;> grind

theorem Disciplined.worker_step (disciplined : Disciplined s) (taken : workerStep s worker = some s') :
    Disciplined s' := by
  obtain ⟨mainLock, workerLock, set, refused, prepared, created, held, allocated⟩ := disciplined
  unfold workerStep World.goto at taken
  split at taken
  · cases taken
  · cases taken
    constructor <;> grind [Function.update_apply]
  · split at taken
    · cases taken
      constructor <;> grind [Function.update_apply]
    · cases taken
  all_goals
    cases taken
    constructor <;> grind [Function.update_apply]

/-! ## Critical sections -/

/-- What `start_worker` has done to the registry since it took the lock. -/
def Place.progress (calls : StartCalls ν) (worker : ν) (cask : GCask ν) : Place → GCask ν
  | .ready => cask
  | .locked => cask
  | .numbered => cask.number worker
  | .listed => (cask.number worker).link worker
  | .refused => (cask.number worker).link worker
  | .counting =>
    if calls.pthreadCreate then (cask.number worker).link worker
    else ((cask.number worker).link worker).unlink worker
  | .unlocking => (startWorker calls cask).2

/-- What `destroy_worker` has done to the registry since it took the lock. -/
def ThreadPc.progress (worker : ν) (cask : GCask ν) : ThreadPc → GCask ν
  | .uncounted => cask.uncount
  | .unlinked => destroyWorker cask worker
  | _ => cask

/-- The registry was `cask` when the lock was taken, or is `cask` if the lock is free. -/
structure Since (s : World ν) (cask : GCask ν) : Prop where
  free : s.owner = none → s.cask = cask
  main : ∀ place calls worker, s.owner = some .main → s.main = .within place calls worker →
    s.cask = place.progress calls worker cask
  worker : ∀ worker, s.owner = some (.worker worker) → s.cask = (s.thread worker).progress worker cask

/-- The world is in the middle of at most one call, and the calls before it were those of `t`. -/
structure Matches (allowed : StartCalls ν → GCask ν → Prop) (s : World ν) (t : Atomic ν) : Prop where
  disciplined : Disciplined s
  since : Since s t.cask
  started : ∀ worker, t.started worker = true ↔ (s.thread worker).Registered ∧ ¬ s.main.Creates worker
  meets : ∀ place calls worker, s.main = .within place calls worker → place ≠ .ready →
    allowed calls t.cask

/-- A step of the interleaving is the end of a whole call, or none of them. -/
def Simulated (allowed : StartCalls ν → GCask ν → Prop) (s' : World ν) (t : Atomic ν) : Prop :=
  Matches allowed s' t ∨ ∃ t', AtomicStep allowed t t' ∧ Matches allowed s' t'

/-- The registry before the first call. -/
def nothingStarted : Atomic ν := ⟨⟨0, 0, init, fun _ => 0⟩, fun _ => false⟩

variable {allowed : StartCalls ν → GCask ν → Prop} {t : Atomic ν}

theorem matches_boot : Matches allowed boot (nothingStarted : Atomic ν) where
  disciplined := disciplined_boot
  since := by constructor <;> simp [boot, nothingStarted]
  started := by simp [boot, nothingStarted, ThreadPc.Registered]
  meets := by simp [boot]

theorem since_main {place : Place} {cask : GCask ν} (owner : s.owner = some .main)
    (pc : s.main = .within place calls worker) (here : s.cask = place.progress calls worker cask) :
    Since s cask where
  free unowned := by
    rw [owner] at unowned
    cases unowned
  main place' calls' worker' _ pc' := by
    cases pc.symm.trans pc'
    exact here
  worker other owned := by
    rw [owner] at owned
    cases owned

theorem since_worker {pc : ThreadPc} {cask : GCask ν} (owner : s.owner = some (.worker worker))
    (place : s.thread worker = pc) (here : s.cask = pc.progress worker cask) : Since s cask where
  free unowned := by
    rw [owner] at unowned
    cases unowned
  main _ _ _ owned _ := by
    rw [owner] at owned
    cases owned
  worker other owned := by
    cases owner.symm.trans owned
    rw [place]
    exact here

theorem since_free {cask : GCask ν} (free : s.owner = none) (here : s.cask = cask) : Since s cask where
  free _ := here
  main _ _ _ owned _ := by
    rw [free] at owned
    cases owned
  worker _ owned := by
    rw [free] at owned
    cases owned

/-- A worker whose registration stays as it is. -/
theorem started_goto
    (started : ∀ other, t.started other = true ↔ (s.thread other).Registered ∧ ¬ s.main.Creates other)
    (worker : ν) (pc : ThreadPc) (same : pc.Registered ↔ (s.thread worker).Registered) (other : ν) :
    t.started other = true ↔ ((s.goto worker pc).thread other).Registered ∧ ¬ s.main.Creates other := by
  rw [started, goto_thread]
  split
  · next here => rw [here, same]
  · rfl

/-- A worker outside of its critical section moves on without the registry. -/
theorem Since.goto {cask : GCask ν} (since : Since s cask) (before : Disciplined s)
    (outside : ¬ (s.thread worker).Critical) (pc : ThreadPc) : Since (s.goto worker pc) cask where
  free := since.free
  main := since.main
  worker other owned := by
    have differs : other ≠ worker := by
      rintro rfl
      exact outside ((before.workerLock other).mp owned)
    have here := since.worker other owned
    simpa [World.goto, differs] using here

theorem progress_count (set : setUpWorker calls = some worker) (cask : GCask ν) :
    (Place.counting.progress calls worker cask).count = Place.unlocking.progress calls worker cask := by
  cases created : calls.pthreadCreate with
  | true => simp [Place.progress, created, startWorker_created cask set]
  | false => simp [Place.progress, created, startWorker_refused cask set]

theorem Matches.call_step (holds : Matches allowed s t) (taken : callStep s calls = some s') :
    Matches allowed s' t := by
  have disciplined := holds.disciplined.call_step taken
  obtain rfl | ⟨worker, idle, set, unused, rfl⟩ := callStep_cases taken
  · exact holds
  · have notMain : s.owner ≠ some .main := by simp [holds.disciplined.mainLock, idle, MainPc.Critical]
    obtain ⟨-, since, started, meets⟩ := holds
    refine ⟨disciplined, ⟨since.free, fun _ _ _ owner => absurd owner notMain, since.worker⟩, ?_, ?_⟩
    · grind
    · grind

/-- A statement of `start_worker` between the lock and the unlock. -/
theorem Matches.next_place {place place' : Place} (holds : Matches allowed s t)
    (pc : s.main = .within place calls worker) (later : place ≠ .ready) (disciplined : Disciplined s')
    (owner : s'.owner = some .main) (pc' : s'.main = .within place' calls worker)
    (here : s'.cask = place'.progress calls worker t.cask)
    (same : ∀ other, ((s'.thread other).Registered ∧ ¬ s'.main.Creates other) ↔
      ((s.thread other).Registered ∧ ¬ s.main.Creates other)) : Matches allowed s' t where
  disciplined := disciplined
  since := since_main owner pc' here
  started other := (holds.started other).trans (same other).symm
  meets _ _ _ within _ := by
    cases pc'.symm.trans within
    exact holds.meets _ _ _ pc later

/-- The statements of `start_worker`.  The unlock ends the call. -/
theorem Matches.main_step (holds : Matches allowed s t) (permits : Permits allowed s .main)
    (taken : mainStep s = some s') : Simulated allowed s' t := by
  have disciplined := holds.disciplined.main_step taken
  have before := holds.disciplined
  cases pc : s.main with
  | idle =>
    rw [mainStep, pc] at taken
    cases taken
  | within place calls worker =>
    have set := before.set _ _ _ pc
    have owner : place ≠ .ready → s.owner = some .main := by
      intro later
      rw [before.mainLock, pc]
      exact later
    have progress := fun later => holds.since.main place calls worker (owner later) pc
    cases place with
    | ready =>
      simp only [mainStep, pc] at taken
      split at taken
      · next free =>
        cases taken
        -- the lock was free, so the registry is the one of the calls so far
        have here := holds.since.free free
        have permitted := permits calls worker rfl pc
        have started := holds.started
        rw [here] at permitted
        exact .inl ⟨disciplined, since_main rfl rfl here, by grind, by grind⟩
      · cases taken
    | locked =>
      simp only [mainStep, pc] at taken
      cases taken
      have here := congrArg (·.number worker) (progress (by simp))
      exact .inl (holds.next_place pc (by simp) disciplined (owner (by simp)) rfl here (by grind))
    | numbered =>
      simp only [mainStep, pc] at taken
      cases taken
      have here := congrArg (·.link worker) (progress (by simp))
      exact .inl (holds.next_place pc (by simp) disciplined (owner (by simp)) rfl here (by grind))
    | listed =>
      simp only [mainStep, pc] at taken
      split at taken
      · next created =>
        cases taken
        -- from here on the thread may run, and wait for the lock
        have noThread : s.thread worker = .absent :=
          before.prepared worker (by simp [pc, MainPc.Prepares, Place.Early])
        have here : s.cask = Place.counting.progress calls worker t.cask := by
          rw [progress (by simp), Place.progress, Place.progress, if_pos created]
        refine .inl (holds.next_place pc (by simp) disciplined (owner (by simp)) rfl here ?_)
        grind [Function.update_apply]
      · cases taken
        have here := progress (by simp)
        exact .inl (holds.next_place pc (by simp) disciplined (owner (by simp)) rfl here (by grind))
    | refused =>
      simp only [mainStep, pc] at taken
      cases taken
      have refused := before.refused _ _ pc
      have here : s.cask.unlink worker = Place.counting.progress calls worker t.cask := by
        simp [progress (by simp), Place.progress, refused]
      exact .inl (holds.next_place pc (by simp) disciplined (owner (by simp)) rfl here (by grind))
    | counting =>
      simp only [mainStep, pc] at taken
      cases taken
      have here := (congrArg GCask.count (progress (by simp))).trans (progress_count set t.cask)
      exact .inl (holds.next_place pc (by simp) disciplined (owner (by simp)) rfl here (by grind))
    | unlocking =>
      simp only [mainStep, pc] at taken
      cases taken
      have started := holds.started
      have prepared := before.prepared worker
      have created := before.created worker
      have fresh : ∀ other, setUpWorker calls = some other → t.started other = false := by grind
      have marked := Atomic.start_started (t := t) set
      have permitted := holds.meets _ _ _ pc (by simp)
      have here : s.cask = (t.start calls).cask := progress (by simp)
      refine .inr ⟨_, .start permitted fresh, disciplined, since_free rfl here, by grind, ?_⟩
      intro place outcomes other within
      cases within

/-- The statements of a worker.  The unlock in `destroy_worker` ends its call. -/
theorem Matches.worker_step (holds : Matches allowed s t) (taken : workerStep s worker = some s') :
    Simulated allowed s' t := by
  have disciplined := holds.disciplined.worker_step taken
  obtain ⟨before, since, started, meets⟩ := holds
  have owner := (before.workerLock worker).mpr
  have progress := fun critical => since.worker worker (owner critical)
  cases pc : s.thread worker with
  | absent =>
    rw [workerStep, pc] at taken
    cases taken
  | running =>
    simp only [workerStep, pc] at taken
    cases taken
    have outside : ¬ (s.thread worker).Critical := by simp [pc, ThreadPc.Critical]
    have kept := started_goto started worker .stopping (by simp [pc, ThreadPc.Registered])
    exact .inl ⟨disciplined, since.goto before outside _, kept, meets⟩
  | stopping =>
    simp only [workerStep, pc] at taken
    split at taken
    · next free =>
      cases taken
      have here : s.cask = ThreadPc.locked.progress worker t.cask := since.free free
      have kept := started_goto started worker .locked (by simp [pc, ThreadPc.Registered])
      exact .inl ⟨disciplined, since_worker rfl (by simp) here, kept, meets⟩
    · cases taken
  | locked =>
    simp only [workerStep, pc] at taken
    cases taken
    have critical : (s.thread worker).Critical := by simp [pc, ThreadPc.Critical]
    have here : s.cask.uncount = ThreadPc.uncounted.progress worker t.cask := by
      rw [progress critical, pc]
      rfl
    have kept := started_goto started worker .uncounted (by simp [pc, ThreadPc.Registered])
    exact .inl ⟨disciplined, since_worker (owner critical) (by simp) here, kept, meets⟩
  | uncounted =>
    simp only [workerStep, pc] at taken
    cases taken
    have critical : (s.thread worker).Critical := by simp [pc, ThreadPc.Critical]
    have here : s.cask.unlink worker = ThreadPc.unlinked.progress worker t.cask := by
      rw [progress critical, pc]
      rfl
    have kept := started_goto started worker .unlinked (by simp [pc, ThreadPc.Registered])
    exact .inl ⟨disciplined, since_worker (owner critical) (by simp) here, kept, meets⟩
  | unlinked =>
    simp only [workerStep, pc] at taken
    cases taken
    have critical : (s.thread worker).Critical := by simp [pc, ThreadPc.Critical]
    have here : s.cask = destroyWorker t.cask worker := by
      rw [progress critical, pc]
      rfl
    -- `start_worker` does not have the lock, so it is not creating this worker or any other
    have notMain : ¬ s.main.Critical := by
      rw [← before.mainLock, owner critical]
      simp
    have there : t.started worker = true := by
      rw [started, pc]
      exact ⟨trivial, fun creates => notMain creates.critical⟩
    refine .inr ⟨_, .destroy there, disciplined, since_free rfl here, fun other => ?_, ?_⟩
    · by_cases same : other = worker
      · simp [Atomic.destroy, same, ThreadPc.Registered]
      · simpa [Atomic.destroy, same] using started other
    · intro place calls other within later
      exact absurd (within ▸ later : s.main.Critical) notMain
  | unlocked =>
    simp only [workerStep, pc] at taken
    cases taken
    have outside : ¬ (s.thread worker).Critical := by simp [pc, ThreadPc.Critical]
    have moved := since.goto before outside .absent
    have kept := started_goto started worker .absent (by simp [pc, ThreadPc.Registered])
    exact .inl ⟨disciplined, ⟨moved.free, moved.main, moved.worker⟩, kept, meets⟩

omit [DecidableEq ν] in
theorem registered_nothingStarted : Registered (nothingStarted : Atomic ν) := by
  refine ⟨[], ⟨circular_init, rfl, by simp, by simp⟩, by simp [nothingStarted]⟩

theorem Matches.step {a : Action ν} (holds : Matches allowed s t) (meets : Permits allowed s a)
    (taken : step s a = some s') : Simulated allowed s' t := by
  cases a with
  | call calls => exact .inl (holds.call_step taken)
  | main => exact holds.main_step meets taken
  | worker worker => exact holds.worker_step taken

/-- Every interleaving matches a sequence of whole calls. -/
theorem Reach.matched (run : Reach allowed s) :
    ∃ t, Relation.ReflTransGen (AtomicStep allowed) nothingStarted t ∧ Matches allowed s t := by
  induction run with
  | boot => exact ⟨nothingStarted, .refl, matches_boot⟩
  | step _ a meets taken ih =>
    obtain ⟨t, calls, holds⟩ := ih
    obtain same | ⟨t', next, holds'⟩ := holds.step meets taken
    · exact ⟨t, calls, same⟩
    · exact ⟨t', calls.tail next, holds'⟩

/-! ## The count -/

theorem registered_of_calls (calls : Relation.ReflTransGen (AtomicStep Clean) nothingStarted t) :
    Registered t := by
  induction calls with
  | refl => exact registered_nothingStarted
  | tail _ next ih => exact ih.step next

/-- In every interleaving in which the threads start and no counter wraps around, the count is exact
whenever the lock is free, and `handle_ipc` stays inside the list.  The next call of `start_worker`
then keeps it so exactly if its own thread starts. -/
theorem registry_exact (run : Reach Clean s) (free : s.owner = none) :
    Exact s.cask ∧
      (∀ startedAt now running numConns request,
        handleIpc (s.cask.registry startedAt running numConns) now request ≠ none) ∧
      ∀ calls : StartCalls ν, (∀ worker, calls.calloc = some worker → s.allocated worker = false) →
        Room s.cask → (Counts calls s.cask ↔ ThreadStarts calls) := by
  obtain ⟨t, calls, holds⟩ := run.matched
  obtain ⟨ws, listed, members⟩ := registered_of_calls calls
  rw [← holds.since.free free] at listed
  refine ⟨listed.exact, listed.exact.handleIpc_ne_none, fun calls unused room => ?_⟩
  refine counts_iff listed room fun worker set => ?_
  -- memory that `calloc` gives is in use for no worker of the list
  have absent := holds.disciplined.absent (unused worker (setUpWorker_calloc set))
  rw [members, holds.started, absent]
  exact fun started => started.1

/-- After the first worker has been started, the second one can be. -/
theorem registry_exact_first : ∃ s : World Nat, Reach Clean s ∧ s.owner = none ∧ s.cask.numWorkers = 1 ∧
    Exact s.cask ∧ Counts (.succeed 1) s.cask := by
  have ready : Reach Clean _ := .step .boot (.call (.succeed 0)) (fun _ _ call => by cases call) rfl
  have clean : Clean (.succeed 0) (boot : World Nat).cask := fun _ _ => ⟨rfl, by decide, by decide⟩
  have locked := ready.step .main (fun _ _ _ here => by cases here; exact clean) rfl
  have numbered := locked.step .main (fun _ _ _ here => by cases here) rfl
  have listed := numbered.step .main (fun _ _ _ here => by cases here) rfl
  have created := listed.step .main (fun _ _ _ here => by cases here) rfl
  have counted := created.step .main (fun _ _ _ here => by cases here) rfl
  have unlocked := counted.step .main (fun _ _ _ here => by cases here) rfl
  obtain ⟨exact, -, next⟩ := registry_exact unlocked rfl
  refine ⟨_, unlocked, rfl, rfl, exact, (next (.succeed 1) ?_ ⟨by decide, by decide⟩).mpr fun _ _ => rfl⟩
  intro worker given
  cases given
  rfl

/-- The outcomes of a call whose thread does not start. -/
def refusedThread : StartCalls Nat := { StartCalls.succeed 0 with pthreadCreate := false }

/-- One call of `start_worker` whose thread does not start leaves a count of one and an empty list,
and the next status request runs past the head of it. -/
theorem refused_thread_counted : ∃ s : World Nat, Reach (fun _ _ => True) s ∧ s.owner = none ∧
    s.main = .idle ∧ s.cask.numWorkers = 1 ∧ Circular s.cask.workers [] ∧ ¬ Exact s.cask ∧
    (startWorker refusedThread (boot : World Nat).cask).1 = .err ∧
    (startWorker refusedThread (boot : World Nat).cask).2.numWorkers ≠ (boot : World Nat).cask.numWorkers ∧
    handleIpc (s.cask.registry 0 (fun _ => false) (fun _ => 0)) 0 (ipcRequest cmdStatus 0) = none := by
  have ready : Reach (fun _ _ => True) _ :=
    .step .boot (.call refusedThread) (fun _ _ _ _ => trivial) rfl
  have locked := ready.step .main (fun _ _ _ _ => trivial) rfl
  have numbered := locked.step .main (fun _ _ _ _ => trivial) rfl
  have listed := numbered.step .main (fun _ _ _ _ => trivial) rfl
  have refused := listed.step .main (fun _ _ _ _ => trivial) rfl
  have unlinked := refused.step .main (fun _ _ _ _ => trivial) rfl
  have counted := unlinked.step .main (fun _ _ _ _ => trivial) rfl
  have unlocked := counted.step .main (fun _ _ _ _ => trivial) rfl
  have empty : Circular (((init : Links Nat).addTail 0).del 0) [] :=
    (circular_init.addTail (by simp)).del (by simp)
  refine ⟨_, unlocked, rfl, rfl, rfl, empty, ?_, rfl, by decide, by rfl⟩
  rintro ⟨ws, circular, count, -⟩
  cases ws with
  | nil => exact absurd count (by decide)
  | cons worker ws => cases circular.path.first

end Cask.Workers
