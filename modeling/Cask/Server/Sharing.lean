import Cask.Db.Threads
import Cask.Server.Pastebin

/-! # Workers that share the pastes

Every worker calls `db_get` and `db_insert` on the one database of the process.  As long as there is
a bucket for every paste, these calls are, for all workers together, those of one list: an insertion
appends to it and a lookup reads it, each at one moment.
-/

namespace Cask.Server

open Storage Database Fuel RwLock

/-- The list that the workers share. -/
def Shares : Call → List (List UInt8) → Result → List (List UInt8) → Prop
  | .insert val _, pastes, result, pastes' =>
    result = .inserted .ok (some pastes.length) ∧ pastes' = pastes ++ [val]
  | .get id _, pastes, result, pastes' => result = .got pastes[id]? ∧ pastes' = pastes

/-- A paste that `post_callback` stores, or a number that `get_callback` looks up, while the system
does its part. -/
def Proper : Call → Prop
  | .insert val calls => calls = .succeed ∧ val ≠ [] ∧ val.length < 2 ^ 32
  | .get id calls => calls = .succeed ∧ id < 2 ^ 64

section Sharing

variable {τ : Type} [DecidableEq τ] {n : Nat} {db : Db} {pastes : List (List UInt8)}
  {history : List (RwLock.Event τ Call Result)} {t : τ} {call : Call} {val : List UInt8}

/-- The paste that an event brings. -/
def brings : RwLock.Event τ Call Result → Option (List UInt8)
  | .call _ (.insert val _) => some val
  | .call _ (.get _ _) => none
  | .ret _ _ _ => none

/-- The calls of a history are proper, and there is room for all pastes that they bring. -/
structure Fits (n : Nat) (pastes : List (List UInt8)) (history : List (RwLock.Event τ Call Result)) : Prop where
  proper : ∀ t call, .call t call ∈ history → Proper call
  buckets : (pastes ++ history.filterMap brings).length ≤ n
  file : fileSize n (pastes ++ history.filterMap brings) < offLimit

omit [DecidableEq τ] in
theorem Fits.init {e : RwLock.Event τ Call Result} (fits : Fits n pastes (history ++ [e])) : Fits n pastes history := by
  obtain ⟨proper, buckets, file⟩ := fits
  rw [List.filterMap_append, ← List.append_assoc] at buckets file
  refine ⟨fun t call here => proper t call (List.mem_append_left _ here), ?_, ?_⟩
  · rw [List.length_append] at buckets
    exact Nat.le_trans (Nat.le_add_right ..) buckets
  · simp only [fileSize, recordSpace, List.map_append, List.sum_append] at file ⊢
    omega

/-- The database and the list at the same moment of a history; `pending` are the pastes whose
insertions have been called and have not taken effect. -/
structure InStep (n : Nat) (pastes : List (List UInt8)) (history : List (RwLock.Event τ Call Result))
    (a : Atomic Db Call Result τ) (b : Atomic (List (List UInt8)) Call Result τ) (pending : List (τ × List UInt8)) :
    Prop where
  keeps : Keeps n a.state b.state
  caller : b.caller = a.caller
  proper : ∀ t call, a.caller t = .called call → Proper call
  waiting : ∀ t val calls, a.caller t = .called (.insert val calls) → (t, val) ∈ pending
  brought : (b.state ++ pending.map Prod.snd).Perm (pastes ++ history.filterMap brings)

variable {a a' : Atomic Db Call Result τ} {b : Atomic (List (List UInt8)) Call Result τ}
  {pending : List (τ × List UInt8)}

omit [DecidableEq τ] in
/-- There is room for a paste that is waiting. -/
theorem InStep.room (together : InStep n pastes history a b pending) (fits : Fits n pastes history)
    (member : (t, val) ∈ pending) :
    b.state.length < n ∧ fileSize n (b.state ++ [val]) < offLimit := by
  obtain ⟨-, buckets, file⟩ := fits
  have perm := together.brought
  obtain ⟨front, back, rfl⟩ := List.append_of_mem member
  have same := perm.length_eq
  have space : recordSpace (b.state ++ (front ++ (t, val) :: back).map Prod.snd) =
      recordSpace (pastes ++ history.filterMap brings) := by
    simp only [recordSpace]
    exact (perm.map _).sum_nat
  simp only [fileSize, ← space] at file ⊢
  simp only [recordSpace, List.map_append, List.map_cons, List.sum_append, List.sum_cons, List.length_append,
    List.length_map, List.length_cons, List.map_nil, List.sum_nil] at same file buckets ⊢
  omega

omit [DecidableEq τ] in
/-- A call that has not taken effect would return now. -/
theorem InStep.does (together : InStep n pastes history a b pending) (fits : Fits n pastes history)
    (here : a.caller t = .called call) : ∃ result db', Does call a.state result db' := by
  have proper := together.proper t call here
  cases call with
  | get id calls =>
    obtain ⟨rfl, bound⟩ := proper
    exact ⟨_, a.state, rfl, _, together.keeps.get bound, rfl⟩
  | insert val calls =>
    obtain ⟨rfl, nonempty, short⟩ := proper
    obtain ⟨early, room⟩ := together.room fits (together.waiting t val .succeed here)
    obtain ⟨res, inserted, -⟩ := together.keeps.insert early nonempty short room
    exact ⟨_, _, res, inserted, rfl⟩

/-- A call takes effect on the database, and on the list. -/
theorem InStep.effect {result : Result} {db' : Db} (together : InStep n pastes history a b pending)
    (fits : Fits n pastes history) (here : a.caller t = .called call) (does : Does call a.state result db') :
    ∃ pastes' pending', Shares call b.state result pastes' ∧
      InStep n pastes history ⟨db', Function.update a.caller t (.done call result)⟩
        ⟨pastes', Function.update b.caller t (.done call result)⟩ pending' := by
  have proper := together.proper t call here
  have callers : Function.update b.caller t (.done call result) = Function.update a.caller t (.done call result) := by
    rw [together.caller]
  -- the others still wait
  have others : ∀ u call', Function.update a.caller t (.done call result) u = .called call' →
      u ≠ t ∧ a.caller u = .called call' := by
    intro u call' waits
    by_cases same : u = t
    · rw [same, Function.update_self] at waits
      cases waits
    · rw [Function.update_of_ne same] at waits
      exact ⟨same, waits⟩
  cases call with
  | get id calls =>
    obtain ⟨rfl, bound⟩ := proper
    obtain ⟨rfl, entry, found, rfl⟩ := does
    cases found.unique (together.keeps.get bound)
    refine ⟨b.state, pending, ⟨rfl, rfl⟩, together.keeps, callers, fun u call' waits => ?_, fun u val calls waits => ?_,
      together.brought⟩
    · exact together.proper u call' (others u call' waits).2
    · exact together.waiting u val calls (others u _ waits).2
  | insert val calls =>
    obtain ⟨rfl, nonempty, short⟩ := proper
    obtain ⟨res, inserted, same⟩ := does
    have member := together.waiting t val .succeed here
    obtain ⟨early, room⟩ := together.room fits member
    obtain ⟨res', inserted', ret, number, keeps⟩ := together.keeps.insert early nonempty short room
    cases inserted.unique inserted'
    cases same
    refine ⟨b.state ++ [val], pending.erase (t, val), ⟨by rw [ret, number], rfl⟩, keeps, callers, fun u call' waits => ?_,
      fun u val' calls waits => ?_, ?_⟩
    · exact together.proper u call' (others u call' waits).2
    · obtain ⟨other, waits⟩ := others u _ waits
      have before := together.waiting u val' calls waits
      have differ : (u, val') ≠ (t, val) := fun same => other (congrArg Prod.fst same)
      exact (List.mem_erase_of_ne differ).mpr before
    · have split : (pending.map Prod.snd).Perm (val :: (pending.erase (t, val)).map Prod.snd) :=
        (List.perm_cons_erase member).map Prod.snd
      rw [List.append_assoc]
      exact (split.symm.append_left b.state).trans together.brought

/-- The pastes that are waiting, with the one that a call brings. -/
def nowPending (pending : List (τ × List UInt8)) (t : τ) : Call → List (τ × List UInt8)
  | .insert val _ => pending ++ [(t, val)]
  | .get _ _ => pending

theorem InStep.called (together : InStep n pastes history a b pending) (proper : Proper call) (t : τ) :
    InStep n pastes (history ++ [.call t call]) { a with caller := Function.update a.caller t (.called call) }
      { b with caller := Function.update b.caller t (.called call) } (nowPending pending t call) := by
  have before : ∀ entry, entry ∈ pending → entry ∈ nowPending pending t call := by
    intro entry member
    cases call with
    | insert val calls => exact List.mem_append_left _ member
    | get id calls => exact member
  refine ⟨together.keeps, by rw [together.caller], fun u call' waits => ?_, fun u val calls waits => ?_, ?_⟩
  · by_cases same : u = t
    · rw [same] at waits
      simp only [Function.update_self, Caller.called.injEq] at waits
      exact waits ▸ proper
    · simp only [Function.update_of_ne same] at waits
      exact together.proper u call' waits
  · by_cases same : u = t
    · rw [same] at waits
      simp only [Function.update_self, Caller.called.injEq] at waits
      rw [same, waits]
      exact List.mem_append_right _ (List.mem_singleton_self _)
    · simp only [Function.update_of_ne same] at waits
      exact before _ (together.waiting u val calls waits)
  · cases call with
    | insert val calls =>
      have brought := together.brought.append_right [val]
      simpa [nowPending, List.filterMap_append, brings] using brought
    | get id calls =>
      have brought := together.brought
      simpa [nowPending, List.filterMap_append, List.filterMap_cons, brings] using brought

theorem InStep.returned {result : Result} (together : InStep n pastes history a b pending) (t : τ) (call : Call) :
    InStep n pastes (history ++ [.ret t call result]) { a with caller := Function.update a.caller t .idle }
      { b with caller := Function.update b.caller t .idle } pending := by
  have others : ∀ u call', Function.update a.caller t .idle u = .called call' → a.caller u = .called call' := by
    intro u call' waits
    by_cases same : u = t
    · rw [same, Function.update_self] at waits
      cases waits
    · rwa [Function.update_of_ne same] at waits
  refine ⟨together.keeps, by rw [together.caller], fun u call' waits => ?_, fun u val calls waits => ?_, ?_⟩
  · exact together.proper u call' (others u call' waits)
  · exact together.waiting u val calls (others u _ waits)
  · have brought := together.brought
    simpa [List.filterMap_append, List.filterMap_cons, brings] using brought

/-- Every history of the atomic database is one of the list. -/
theorem shares_of_atomic (keeps : Keeps n db pastes) (trace : Trace (AtomicStep Does) (Atomic.quiet db) history a) :
    Fits n pastes history → ∃ b pending, Trace (AtomicStep Shares) (Atomic.quiet pastes) history b ∧
      InStep n pastes history a b pending := by
  induction trace with
  | start =>
    intro _
    refine ⟨Atomic.quiet pastes, [], .start, keeps, rfl, fun t call waits => ?_, fun t val calls waits => ?_, ?_⟩
    · cases waits
    · cases waits
    · simp [Atomic.quiet]
  | silent _ taken ih =>
    intro fits
    obtain ⟨b, pending, earlier, together⟩ := ih fits
    cases taken with
    | effect here runs =>
      obtain ⟨pastes', pending', shares, together'⟩ := together.effect fits here runs
      exact ⟨_, pending', .silent earlier (.effect (by rw [together.caller, here]) shares), together'⟩
  | event _ taken ih =>
    intro fits
    obtain ⟨b, pending, earlier, together⟩ := ih fits.init
    cases taken with
    | @call t call here =>
      have proper := fits.proper t call (List.mem_append_right _ (List.mem_singleton_self _))
      exact ⟨_, _, .event earlier (.call call (by rw [together.caller, here])), together.called proper t⟩
    | @ret t call result here =>
      exact ⟨_, pending, .event earlier (.ret (by rw [together.caller, here])), together.returned t call⟩

/-- However the accesses of the workers to the database are interleaved, what they see is what they
would see of a list that one of them at a time appends to or reads: every insertion gets a number of
its own, and a lookup that begins after it has returned finds its paste.  No worker stops the process,
and each that holds the lock comes to its unlock by itself. -/
theorem workers_share_pastes {w : World Db Call Call.Pc Result τ} (keeps : Keeps n db pastes)
    (fits : Fits n pastes history) (trace : Trace (Step threads) (World.quiet db) history w) :
    ∃ b, Trace (AtomicStep Shares) (Atomic.quiet pastes) history b ∧
      ((∀ t val calls pc, w.place t ≠ .inside (.insert val calls) pc) → Keeps n w.state b.state) ∧
      ∀ t call pc, w.place t = .inside call pc →
        ∃ last, Returns (loop .fuel (threads.step call) · (pc, w.state)) last := by
  obtain ⟨a, atomic, holds⟩ := linearizable .fuel trace
  have does := atomic.mono fun _ _ _ => AtomicStep.mono fun _ _ _ _ => does_of_runs
  obtain ⟨b, pending, shared, together⟩ := shares_of_atomic keeps does fits
  refine ⟨b, shared, fun free => ?_, fun t call pc inside => ?_⟩
  · rw [holds.shared fun t call pc inside => ?_]
    · exact together.keeps
    · cases call with
      | insert val calls => exact absurd inside (free t val calls pc)
      | get id calls => rfl
  · have here : a.caller t = .called call := by rw [holds.seen t, inside]; rfl
    obtain ⟨result, db', does⟩ := together.does fits here
    obtain ⟨start, entry, reaches⟩ := holds.underway t call pc inside
    have runs := runs_of_does does
    rw [Object.Runs, entry] at runs
    exact ⟨_, reaches.rest_returns runs⟩

theorem workers_share_pastes_overlap : ∃ b : Atomic (List (List UInt8)) Call Result Nat,
    Trace (AtomicStep Shares) (Atomic.quiet [])
      [.call 0 insertA, .call 1 getFirst, .ret 1 getFirst (.got none)] b := by
  obtain ⟨w, trace⟩ := trace_overlap
  have opened : openDb none ⟨1⟩ .succeed = .ok (some ⟨freshFile 1, 24⟩, some (freshFile 1)) :=
    openDb_fresh (by decide)
  have keeps : Keeps 1 ⟨freshFile 1, 24⟩ [] := keeps_created (Nat.le_refl 1) (by decide) opened
  have proper : ∀ t call, (.call t call : RwLock.Event Nat Call Result) ∈
      [.call 0 insertA, .call 1 getFirst, .ret 1 getFirst (.got none)] → Proper call := by
    intro t call member
    simp only [List.mem_cons, RwLock.Event.call.injEq, List.not_mem_nil, or_false, reduceCtorEq] at member
    obtain ⟨-, rfl⟩ | ⟨-, rfl⟩ := member
    · exact ⟨rfl, by decide, by decide⟩
    · exact ⟨rfl, by decide⟩
  obtain ⟨b, shared, -⟩ := workers_share_pastes keeps ⟨proper, by decide, by decide⟩ trace
  exact ⟨b, shared⟩

end Sharing

end Cask.Server
