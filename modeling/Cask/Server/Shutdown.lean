import Cask.Lib.CircularList

/-! # Shutdown

The statements of `main` behind the label `out`, interleaved with the workers, which run
`worker_proc` and then `destroy_worker`.  `main` destroys the worker lock, unmaps the index
file and closes the database before it asks the workers to stop, so a shutdown is only safe
when there is no worker left to ask.
-/

namespace Cask.Shutdown

open CircularList

/-- The next statement of `main`; `p` and `n` are the variables of `list_for_each_safe`. -/
inductive MainPc (ω : Type) where
  | freeAddrInfo
  | mutexDestroy
  | closeIpc
  | unlinkSocket
  | unmapFile
  | closeDb
  | first
  | readNext (p : Ptr ω)
  | test (p n : Ptr ω)
  | readRunning (worker : ω) (n : Ptr ω)
  | clearRunning (worker : ω) (n : Ptr ω)
  | readThread (worker : ω) (n : Ptr ω)
  | join (worker : ω) (n : Ptr ω)
  | done

/-- The place of a worker's thread: in front of `running = true`, at the loop test, in
`event_base_iter`, and then in `destroy_worker` in front of the lock, of `list_del`, of the
unlock and of `free`. -/
inductive WorkerPc where
  | created
  | loopTest
  | iterating
  | stopping
  | locked
  | unlinked
  | unlocked
  | freed
  deriving DecidableEq, Repr

/-- What a callback may use. -/
inductive Resource where
  | dbGet
  | dbInsert
  | index
  deriving DecidableEq, Repr

inductive WorkerAct where
  | start
  | test
  | use (resource : Resource)
  | iterated
  | failed
  | lock
  | unlink
  | unlock
  | free
  deriving DecidableEq, Repr

inductive Action (ω : Type) where
  | main
  | worker (w : ω) (act : WorkerAct)

structure World (ω : Type) where
  main : MainPc ω
  mutexDestroyed : Bool
  fileUnmapped : Bool
  dbClosed : Bool
  lockHeld : Bool
  workers : Links ω
  running : ω → Bool
  pc : ω → WorkerPc

variable {ω : Type} [DecidableEq ω]

/-! ## Steps -/

/-- The next statement of `main`; `none` while it waits in `pthread_join` and after the end. -/
def mainStep (s : World ω) : Option (World ω) :=
  match s.main with
  | .freeAddrInfo => some { s with main := .mutexDestroy }
  | .mutexDestroy => some { s with main := .closeIpc, mutexDestroyed := true }
  | .closeIpc => some { s with main := .unlinkSocket }
  | .unlinkSocket => some { s with main := .unmapFile }
  | .unmapFile => some { s with main := .closeDb, fileUnmapped := true }
  | .closeDb => some { s with main := .first, dbClosed := true }
  | .first => some { s with main := .readNext (s.workers.next .head) }
  | .readNext p => some { s with main := .test p (s.workers.next p) }
  | .test .head _ => some { s with main := .done }
  | .test (.node worker) n => some { s with main := .readRunning worker n }
  | .test .null _ => none
  | .readRunning worker n =>
    if s.running worker then some { s with main := .clearRunning worker n } else some { s with main := .readNext n }
  | .clearRunning worker n =>
    some { s with main := .readThread worker n, running := Function.update s.running worker false }
  | .readThread worker n => some { s with main := .join worker n }
  | .join worker n => if s.pc worker = .freed then some { s with main := .readNext n } else none
  | .done => none

/-- The place of a worker that is about to take an action. -/
def WorkerAct.pc : WorkerAct → WorkerPc
  | .start => .created
  | .test => .loopTest
  | .use _ => .iterating
  | .iterated => .iterating
  | .failed => .iterating
  | .lock => .stopping
  | .unlink => .locked
  | .unlock => .unlinked
  | .free => .unlocked

def World.goto (s : World ω) (w : ω) (pc : WorkerPc) : World ω :=
  { s with pc := Function.update s.pc w pc }

/-- An action of a worker that is at its place; `none` while the lock is held by another one. -/
def workerStep (s : World ω) (w : ω) : WorkerAct → Option (World ω)
  | .start => some { s.goto w .loopTest with running := Function.update s.running w true }
  | .test => some (s.goto w (if s.running w then .iterating else .stopping))
  | .use _ => some s
  | .iterated => some (s.goto w .loopTest)
  | .failed => some { s.goto w .stopping with running := Function.update s.running w false }
  | .lock => if s.lockHeld then none else some { s.goto w .locked with lockHeld := true }
  | .unlink => some { s.goto w .unlinked with workers := s.workers.del w }
  | .unlock => some { s.goto w .unlocked with lockHeld := false }
  | .free => some (s.goto w .freed)

def step (s : World ω) : Action ω → Option (World ω)
  | .main => mainStep s
  | .worker w act => if s.pc w = act.pc then workerStep s w act else none

/-- The states of the interleavings from `s`. -/
inductive Reach (s : World ω) : World ω → Prop where
  | refl : Reach s s
  | step {t u : World ω} (earlier : Reach s t) (a : Action ω) (taken : step t a = some u) : Reach s u

/-! ## Misuse -/

/-- The worker whose memory the next statement of `main` reads. -/
def reads : MainPc ω → Option ω
  | .readNext (.node w) => some w
  | .readRunning w _ => some w
  | .readThread w _ => some w
  | _ => none

/-- The action, which is the next one of its thread, uses something that is gone. -/
def Misuse (s : World ω) : Action ω → Prop
  | .main => ∃ w, reads s.main = some w ∧ s.pc w = .freed
  | .worker w (.use .index) => s.pc w = .iterating ∧ s.fileUnmapped = true
  | .worker w (.use _) => s.pc w = .iterating ∧ s.dbClosed = true
  | .worker w .lock => s.pc w = .stopping ∧ s.mutexDestroyed = true
  | .worker _ _ => False

/-- No interleaving uses anything that is gone. -/
def Safe (s : World ω) : Prop := ∀ t, Reach s t → ∀ a, ¬ Misuse t a

/-- The places of a worker that is in the list of workers. -/
def WorkerPc.Listed : WorkerPc → Prop
  | .unlinked => False
  | .unlocked => False
  | .freed => False
  | _ => True

/-- `main` is at the label `out`; the list holds the workers `ws`. -/
structure AtOut (s : World ω) (ws : List ω) : Prop where
  main : s.main = .freeAddrInfo
  circular : Circular s.workers ws
  listed : ∀ w, w ∈ ws ↔ (s.pc w).Listed

/-! ## No worker left -/

/-- Where `main` can be while the list of workers is empty. -/
def MainPc.Alone : MainPc ω → Prop
  | .readNext p => p = .head
  | .test p _ => p = .head
  | .readRunning _ _ => False
  | .clearRunning _ _ => False
  | .readThread _ _ => False
  | .join _ _ => False
  | _ => True

/-- The list is empty and every worker has unlinked itself. -/
structure Alone (s : World ω) : Prop where
  main : s.main.Alone
  empty : s.workers.next .head = .head
  gone : ∀ w, ¬ (s.pc w).Listed

theorem Alone.main_step {s t : World ω} (alone : Alone s) (taken : mainStep s = some t) :
    Alone t := by
  obtain ⟨main, empty, gone⟩ := alone
  cases place : s.main with
  | first =>
    rw [mainStep, place] at taken
    cases taken
    exact ⟨empty, empty, gone⟩
  | readNext p =>
    -- the head is read again, and the loop ends at the next test
    rw [place] at main
    rw [mainStep, place] at taken
    cases taken
    exact ⟨main, empty, gone⟩
  | test p n =>
    rw [place] at main
    obtain rfl : p = .head := main
    rw [mainStep, place] at taken
    cases taken
    exact ⟨trivial, empty, gone⟩
  | readRunning worker n => exact (place ▸ main : (MainPc.readRunning worker n).Alone).elim
  | clearRunning worker n => exact (place ▸ main : (MainPc.clearRunning worker n).Alone).elim
  | readThread worker n => exact (place ▸ main : (MainPc.readThread worker n).Alone).elim
  | join worker n => exact (place ▸ main : (MainPc.join worker n).Alone).elim
  | done =>
    rw [mainStep, place] at taken
    cases taken
  | _ =>
    rw [mainStep, place] at taken
    cases taken
    exact ⟨trivial, empty, gone⟩

/-- A worker that is not in the list has only the unlock and `free` in front of it. -/
theorem Alone.worker_step {s t : World ω} {w : ω} {act : WorkerAct} (alone : Alone s)
    (taken : step s (.worker w act) = some t) : Alone t := by
  have gone := alone.gone w
  rw [step] at taken
  split at taken
  · rename_i place
    rw [place] at gone
    have others : ∀ pc, ¬ pc.Listed → ∀ v, ¬ (Function.update s.pc w pc v).Listed := by
      intro pc unlisted v
      rw [Function.update_apply]
      split
      · exact unlisted
      · exact alone.gone v
    cases act with
    | unlock =>
      cases taken
      exact ⟨alone.main, alone.empty, others _ (by exact id)⟩
    | free =>
      cases taken
      exact ⟨alone.main, alone.empty, others _ (by exact id)⟩
    | _ => exact absurd trivial gone
  · cases taken

theorem Alone.reach {s t : World ω} (alone : Alone s) (run : Reach s t) : Alone t := by
  induction run with
  | refl => exact alone
  | step _ a taken ih =>
    cases a with
    | main => exact ih.main_step taken
    | worker w act => exact ih.worker_step taken

omit [DecidableEq ω] in
theorem Alone.no_misuse {s : World ω} (alone : Alone s) (a : Action ω) : ¬ Misuse s a := by
  have main := alone.main
  cases a with
  | main =>
    rintro ⟨w, read, -⟩
    unfold reads at read
    split at read
    · rename_i place
      rw [place] at main
      cases main
    · rename_i place
      rw [place] at main
      exact main
    · rename_i place
      rw [place] at main
      exact main
    · cases read
  | worker w act =>
    have gone := alone.gone w
    intro misuse
    cases act with
    | use resource => cases resource <;> exact gone (misuse.1 ▸ trivial)
    | lock => exact gone (misuse.1 ▸ trivial)
    | _ => exact misuse

/-! ## A worker left -/

theorem not_safe_of_step {s t : World ω} (a : Action ω) (taken : step s a = some t)
    (broken : ¬ Safe t) : ¬ Safe s := by
  intro safe
  apply broken
  intro u run
  apply safe u
  clear broken
  induction run with
  | refl => exact .step .refl a taken
  | step _ b next ih => exact .step ih b next

theorem not_safe_of_worker {s t : World ω} {w : ω} (act : WorkerAct) (place : s.pc w = act.pc)
    (taken : workerStep s w act = some t) (broken : ¬ Safe t) : ¬ Safe s :=
  not_safe_of_step (.worker w act) ((if_pos place).trans taken) broken

/-- After the statements in front of the loop over the workers. -/
def tornDown (s : World ω) : World ω :=
  { s with main := .first, mutexDestroyed := true, fileUnmapped := true, dbClosed := true }

theorem not_safe_of_tornDown {s : World ω} (out : s.main = .freeAddrInfo)
    (broken : ¬ Safe (tornDown s)) : ¬ Safe s := by
  have taken : step s .main = some { s with main := .mutexDestroy } := by rw [step, mainStep, out]
  apply not_safe_of_step .main taken
  apply not_safe_of_step .main rfl
  apply not_safe_of_step .main rfl
  apply not_safe_of_step .main rfl
  apply not_safe_of_step .main rfl
  apply not_safe_of_step .main rfl
  exact broken

/-- A worker in `event_base_iter` can use the database after it is closed. -/
theorem not_safe_of_iterating {s : World ω} {w : ω} (out : s.main = .freeAddrInfo)
    (place : s.pc w = .iterating) : ¬ Safe s := by
  apply not_safe_of_tornDown out
  intro safe
  exact safe (tornDown s) .refl (.worker w (.use .dbGet)) ⟨place, rfl⟩

/-- A worker in front of the lock can take it after it is destroyed. -/
theorem not_safe_of_stopping {s : World ω} {w : ω} (out : s.main = .freeAddrInfo)
    (place : s.pc w = .stopping) : ¬ Safe s := by
  apply not_safe_of_tornDown out
  intro safe
  exact safe (tornDown s) .refl (.worker w .lock) ⟨place, rfl⟩

theorem not_safe_of_loopTest {s : World ω} {w : ω} (out : s.main = .freeAddrInfo)
    (place : s.pc w = .loopTest) : ¬ Safe s := by
  apply not_safe_of_worker .test place rfl
  cases running : s.running w with
  | true => exact not_safe_of_iterating out (Function.update_self ..)
  | false => exact not_safe_of_stopping out (Function.update_self ..)

/-- The pointer that `main` is about to follow goes to a worker that can unlink and free itself first. -/
theorem not_safe_of_readNext {s : World ω} {w : ω} (main : s.main = .readNext (.node w))
    (place : s.pc w = .locked) : ¬ Safe s := by
  apply not_safe_of_worker .unlink place rfl
  apply not_safe_of_worker .unlock (Function.update_self ..) rfl
  apply not_safe_of_worker .free (Function.update_self ..) rfl
  intro safe
  exact safe _ .refl .main ⟨w, congrArg reads main, Function.update_self ..⟩

theorem not_safe_of_locked {s : World ω} {w : ω} (out : s.main = .freeAddrInfo)
    (first : s.workers.next .head = .node w) (place : s.pc w = .locked) : ¬ Safe s := by
  apply not_safe_of_tornDown out
  apply not_safe_of_step .main rfl
  exact not_safe_of_readNext (congrArg MainPc.readNext first) place

theorem AtOut.not_safe {s : World ω} {w : ω} {ws : List ω} (atOut : AtOut s (w :: ws)) :
    ¬ Safe s := by
  have out := atOut.main
  have listed : (s.pc w).Listed := (atOut.listed w).mp (List.mem_cons_self ..)
  cases place : s.pc w with
  | created =>
    apply not_safe_of_worker .start place rfl
    exact not_safe_of_loopTest out (Function.update_self ..)
  | loopTest => exact not_safe_of_loopTest out place
  | iterating => exact not_safe_of_iterating out place
  | stopping => exact not_safe_of_stopping out place
  | locked => exact not_safe_of_locked out atOut.circular.path.first place
  | unlinked => exact (place ▸ listed : WorkerPc.unlinked.Listed).elim
  | unlocked => exact (place ▸ listed : WorkerPc.unlocked.Listed).elim
  | freed => exact (place ▸ listed : WorkerPc.freed.Listed).elim

/-- Nothing that is gone is used, in any interleaving of the shutdown, exactly when no worker is
left in the list when `main` comes to `out`. -/
theorem shutdown_safe_iff {s : World ω} {ws : List ω} (atOut : AtOut s ws) : Safe s ↔ ws = [] := by
  constructor
  · intro safe
    cases ws with
    | nil => rfl
    | cons w ws => exact absurd safe atOut.not_safe
  · rintro rfl
    have alone : Alone s := by
      refine ⟨?_, atOut.circular.path.first, ?_⟩
      · rw [atOut.main]
        trivial
      · intro w listed
        exact List.not_mem_nil ((atOut.listed w).mpr listed)
    intro t run a
    exact (alone.reach run).no_misuse a

/-- `main` at `out`, one worker that is at `pc`, and the links of the list. -/
def oneWorker (pc : WorkerPc) (workers : Links Unit) : World Unit where
  main := .freeAddrInfo
  mutexDestroyed := false
  fileUnmapped := false
  dbClosed := false
  lockHeld := false
  workers := workers
  running := fun _ => true
  pc := fun _ => pc

/-- The only worker has left by itself. -/
theorem shutdown_safe_iff_left :
    AtOut (oneWorker .freed init) [] ∧ Safe (oneWorker .freed init) := by
  have atOut : AtOut (oneWorker .freed init) [] := by
    refine ⟨rfl, circular_init, ?_⟩
    intro w
    exact iff_of_false List.not_mem_nil id
  exact ⟨atOut, (shutdown_safe_iff atOut).mpr rfl⟩

/-- A worker that is in a callback when `main` comes to `out`. -/
theorem not_shutdown_safe_callback :
    ¬ ∀ s : World Unit, ∀ ws, AtOut s ws → Safe s := by
  intro always
  have circular : Circular ((init : Links Unit).addTail ()) ([] ++ [()]) :=
    circular_init.addTail List.not_mem_nil
  have atOut : AtOut (oneWorker .iterating (init.addTail ())) [()] := by
    refine ⟨rfl, circular, ?_⟩
    intro w
    exact iff_of_true (List.mem_cons_self ..) trivial
  exact atOut.not_safe (always _ _ atOut)

end Cask.Shutdown
