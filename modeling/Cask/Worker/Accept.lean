import Mathlib.Tactic.Common

/-! # Accepting connections

The listening socket of a worker is registered with `EPOLLIN|EPOLLET`: `epoll_wait` reports it
once after an arrival, however many clients have arrived by then.  `on_accept` takes one
connection for each report.  So the clients that arrive while an earlier arrival has not been
reported yet are left in the backlog.
-/

namespace Cask.Worker

/-- What the worker does next with its listening socket. -/
inductive Phase where
  | waiting
  | reported
  deriving DecidableEq, Repr

/-- The listening socket as the kernel keeps it, and the place of the worker. -/
structure Listener where
  backlog : Nat
  edge : Bool
  phase : Phase
  deriving DecidableEq, Repr

/-- The socket after `listen` and `add_event`. -/
def listening : Listener := ⟨0, false, .waiting⟩

/-- A client connects. -/
def arrive (s : Listener) : Listener := { s with backlog := s.backlog + 1, edge := true }

/-- `epoll_wait` in `run_io`: an edge is reported and cleared, otherwise the wait times out. -/
def epollWait (s : Listener) : Listener :=
  if s.edge then { s with edge := false, phase := .reported } else s

/-- `on_accept`: `accept` takes the first client of the backlog; without one it would not return. -/
def onAccept (s : Listener) : Option Listener :=
  if s.backlog = 0 then none else some { s with backlog := s.backlog - 1, phase := .waiting }

/-- The states of an interleaving, with the number of clients so far that arrived while the edge
of an earlier arrival was still set. -/
inductive Run : Listener → Nat → Prop where
  | start : Run listening 0
  | arrive {s : Listener} {merged : Nat} (run : Run s merged) : Run (arrive s) (merged + s.edge.toNat)
  | wait {s : Listener} {merged : Nat} (run : Run s merged) (waiting : s.phase = .waiting) : Run (epollWait s) merged
  | accept {s s' : Listener} {merged : Nat} (run : Run s merged) (reported : s.phase = .reported)
      (accepted : onAccept s = some s') : Run s' merged

/-- The reports that are due or being handled. -/
def pending (s : Listener) : Nat :=
  match s.phase with
  | .waiting => s.edge.toNat
  | .reported => s.edge.toNat + 1

theorem pending_arrive (s : Listener) : pending (arrive s) + s.edge.toNat = pending s + 1 := by
  cases edge : s.edge <;> cases phase : s.phase <;> simp [pending, arrive, edge, phase]

theorem pending_epollWait {s : Listener} (waiting : s.phase = .waiting) :
    pending (epollWait s) = pending s := by
  cases edge : s.edge with
  | true => simp [pending, epollWait, edge, waiting]
  | false => simp [epollWait, edge]

/-- Every client in the backlog has a report of its own, except for the merged ones. -/
theorem Run.backlog_eq {s : Listener} {merged : Nat} (run : Run s merged) :
    s.backlog = pending s + merged := by
  induction run with
  | start => rfl
  | @arrive s merged _ ih =>
    have reports := pending_arrive s
    have grown : (Worker.arrive s).backlog = s.backlog + 1 := rfl
    omega
  | @wait s merged _ waiting ih =>
    have same : (epollWait s).backlog = s.backlog := by
      rw [epollWait]
      split <;> rfl
    rw [same, ih, pending_epollWait waiting]
  | @accept s s' merged _ reported accepted ih =>
    unfold onAccept at accepted
    split at accepted
    · cases accepted
    · cases accepted
      simp only [pending, reported] at ih ⊢
      omega

/-- A report is never handled without a client to accept. -/
theorem Run.accept_returns {s : Listener} {merged : Nat} (run : Run s merged)
    (reported : s.phase = .reported) : (onAccept s).isSome := by
  have total := run.backlog_eq
  rw [onAccept, if_neg]
  · rfl
  · intro empty
    rw [empty, pending, reported] at total
    dsimp only at total
    omega

/-- When the worker is about to wait and no edge is set, the backlog is empty exactly when no
client arrived before the edge of an earlier one was reported. -/
theorem backlog_empty_iff {s : Listener} {merged : Nat} (run : Run s merged)
    (waiting : s.phase = .waiting) (clear : s.edge = false) : s.backlog = 0 ↔ merged = 0 := by
  have total := run.backlog_eq
  have none : pending s = 0 := by simp [pending, waiting, clear]
  rw [total, none, Nat.zero_add]

/-- The second of two clients arrives while the first one is being accepted, and a third one while
the edge of the second is still set. -/
theorem backlog_empty_iff_three : Run ⟨0, false, .waiting⟩ 0 ∧ Run ⟨1, false, .waiting⟩ 1 ∧
    (⟨0, false, .waiting⟩ : Listener).backlog = 0 ∧ (⟨1, false, .waiting⟩ : Listener).backlog ≠ 0 := by
  have second : Run ⟨1, true, .waiting⟩ 0 := .accept (.arrive (.wait (.arrive .start) rfl)) rfl rfl
  have both : Run ⟨0, false, .waiting⟩ 0 := .accept (.wait second rfl) rfl rfl
  have merged : Run ⟨1, false, .waiting⟩ 1 := .accept (.wait (.arrive second) rfl) rfl rfl
  exact ⟨both, merged, (backlog_empty_iff both rfl rfl).mpr rfl, mt (backlog_empty_iff merged rfl rfl).mp (by decide)⟩

/-- Two clients arrive before the wait: one report, one accept, and the worker waits again. -/
theorem not_backlog_empty_two :
    ¬ ∀ s merged, Run s merged → s.phase = .waiting → s.edge = false → s.backlog = 0 := by
  intro always
  have run : Run ⟨1, false, .waiting⟩ 1 := .accept (.wait (.arrive (.arrive .start)) rfl) rfl rfl
  have empty := always _ _ run rfl rfl
  exact absurd empty (by decide)

end Cask.Worker
