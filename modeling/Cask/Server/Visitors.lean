import Cask.Connection.Crowd
import Cask.Server.Pastebin
import Mathlib.Data.List.Perm.Subperm

/-! # Visitors of one worker

Many clients at once, whose callbacks a worker calls in any order.  Each of them sees one pastebin:
there is an order of all their requests in which the pastebin gives the responses that they get.
-/

namespace Cask.Server

open Storage Database Http Conn Fuel

/-! ## Room for the pastes of all clients -/

/-- The file of fewer pastes is not longer. -/
theorem fileSize_subperm {pastes more : List (List UInt8)} (n : Nat) (fewer : pastes.Subperm more) :
    fileSize n pastes ≤ fileSize n more := by
  obtain ⟨part, same, sublist⟩ := fewer
  have first : recordSpace part = recordSpace pastes := by
    simp only [recordSpace]
    exact (same.map _).sum_nat
  have second : recordSpace part ≤ recordSpace more := by
    clear same first
    induction sublist with
    | slnil => exact Nat.le_refl _
    | cons _ _ ih =>
      simp only [recordSpace, List.map_cons, List.sum_cons] at ih ⊢
      omega
    | cons_cons _ _ ih =>
      simp only [recordSpace, List.map_cons, List.sum_cons] at ih ⊢
      omega
  simp only [fileSize]
  omega

section Visitors

variable {α : Type} [DecidableEq α] {messages : α → List (Message × List Recv)} {log : List (LogEntry α)}

/-- The pastes that the messages of some clients add. -/
def pastesOf (messages : α → List (Message × List Recv)) (clients : List α) : List (List UInt8) :=
  clients.flatMap fun a => posted ((messages a).map (·.1))

theorem posted_perm {first second : List Message} (same : first.Perm second) : (posted first).Perm (posted second) :=
  (same.filter _).map _

/-- What a log adds is among what its clients add. -/
theorem posted_subperm {clients : List α} (faithful : Faithful messages log)
    (known : ∀ entry ∈ log, entry.client ∈ clients) :
    (posted (log.map (·.message))).Subperm (pastesOf messages clients) := by
  induction clients generalizing log with
  | nil =>
    cases log with
    | nil => exact List.Subperm.refl _
    | cons entry log => exact absurd (known entry List.mem_cons_self) List.not_mem_nil
  | cons a clients ih =>
    -- the entries of the first client, and those of the others
    let others := log.filter fun entry => ¬ entry.client = a
    have split : (own a log ++ others).Perm log := by
      simpa [own, others] using List.filter_append_perm (fun entry => decide (entry.client = a)) log
    have first : (posted ((own a log).map (·.message))).Subperm (posted ((messages a).map (·.1))) :=
      (((faithful a).sublist.filter _).map _).subperm
    have rest : (posted (others.map (·.message))).Subperm (pastesOf messages clients) := by
      refine ih (fun b => ?_) fun entry member => ?_
      · by_cases same : b = a
        · have none : own b others = [] := by
            simp [own, others, same]
          rw [none]
          exact List.nil_prefix
        · have all : own b others = own b log := by
            simp only [own, others, List.filter_filter]
            refine List.filter_congr fun entry _ => ?_
            by_cases here : entry.client = b
            · simp [here, same]
            · simp [here]
          rw [all]
          exact faithful b
      · simp only [others, List.mem_filter, decide_not, Bool.not_eq_eq_eq_not, Bool.not_true,
          decide_eq_false_iff_not] at member
        exact (List.mem_cons.mp (known entry member.1)).resolve_left member.2
    have both := first.append rest
    rw [← posted_append, ← List.map_append] at both
    exact (posted_perm (split.map _)).symm.subperm.trans both

/-! ## All turns of a worker -/

/-- What the clients see is what one pastebin tells them, that takes the messages in the order of the
log: each has been sent the responses to its own messages, up to the middle of the last one if it is
still being sent. -/
structure Told (index : List UInt8) (pastes : List (List UInt8)) (messages : α → List (Message × List Recv))
    (start crowd : Crowd α Db) (log : List (LogEntry α)) : Prop where
  responses : ((pastebin index).run pastes (log.map (·.message))).1 = log.map (·.response)
  order : Faithful messages log
  sent : ∀ a, ∃ c, crowd.conn a = some c ∧
    (crowd.io a).sent <+: (start.io a).sent ++ ((own a log).map fun entry => keptText entry.response).flatten ∧
    (c.state = .stateIn →
      (crowd.io a).sent = (start.io a).sent ++ ((own a log).map fun entry => keptText entry.response).flatten)

variable {file : File} {callback : Callback Db} {n : Nat} {history : List Message} {start crowd : Crowd α Db}
  {clients : List α}

theorem told_of_underway {index : List UInt8} {pastes : List (List UInt8)}
    (underway : Underway (pastebin index) pastes (Keeps n) messages start crowd log) :
    Told index pastes messages start crowd log := by
  refine ⟨underway.responses, underway.faithful, fun a => ?_⟩
  obtain ⟨c, found, -⟩ := (underway.client a).state
  have attended := underway.client a
  rw [found] at attended
  have sent := attended.sent
  rw [List.map_map] at sent
  exact ⟨c, found, sent⟩

/-- In every run of a server, through restarts and with any clients before, the callbacks of the
clients that are connected at one time may be called in any order: they all see one pastebin.
And from wherever they are, every client can be served to its end. -/
theorem visitors_served (follows : Follows file callback) (positive : 1 ≤ n)
    (lived : Lived callback n start.app history) (visited : Visited callback messages start)
    (everyone : ∀ a, a ∈ clients) (few : (posted history ++ pastesOf messages clients).length ≤ n)
    (fits : fileSize n (posted history ++ pastesOf messages clients) < offLimit)
    (turns : Turns callback start crowd) :
    ∃ log, Told (indexCallback file).2 (posted history) messages start crowd log ∧
      Keeps n crowd.app (posted history ++ posted (log.map (·.message))) ∧
      ∀ a, ∃ crowd' log', Turns callback crowd crowd' ∧ log <+: log' ∧
        Told (indexCallback file).2 (posted history) messages start crowd' log' ∧
        (own a log').map (·.message) = (messages a).map (·.1) ∧ ∃ c, crowd'.conn a = some c ∧ c.state = .stateIn := by
  have before : (posted history).length ≤ n := by
    rw [List.length_append] at few
    omega
  have keeps := lived.keeps follows positive before (Nat.lt_of_le_of_lt (fileSize_le n _ _) fits)
  -- the pastes of every log have room
  have admits : ∀ log, Faithful messages log →
      (pastebin (indexCallback file).2).Allows (HasRoom n) (posted history) (log.map (·.message)) := by
    intro log faithful
    have fewer := (List.subperm_append_left (posted history)).mpr
      (posted_subperm faithful fun entry _ => everyone entry.client)
    exact allows_of_room _ (Nat.le_trans fewer.length_le few) (Nat.lt_of_le_of_lt (fileSize_subperm n fewer) fits)
  have implements := follows.implements n
  obtain ⟨log, underway⟩ := turns.underway implements admits visited keeps
  have related := underway.related
  rw [run_pastebin] at related
  refine ⟨log, told_of_underway underway, related, fun a => ?_⟩
  obtain ⟨crowd', log', turns', underway', longer, rest⟩ := underway.finish implements admits visited turns a
  exact ⟨crowd', log', turns', longer, told_of_underway underway', rest⟩

end Visitors

/-! ### A paste from one client to the other -/

/-- One client posts `hi`, the other asks for the first paste. -/
def fromTo : Bool → List (Message × List Recv)
  | false => [(postHi, [.data postHiChunk, .again])]
  | true => [(getZero, [.data getZeroChunk, .again])]

def bothConnected : Crowd Bool Db :=
  ⟨fun _ => some accepted, fun a => { visitor with recvs := ((fromTo a).map (·.2)).flatten }, visitor.app⟩

theorem fromTo_pieces (a : Bool) : ∀ part ∈ fromTo a, Regular part.1 ∧
    ∃ chunk, part.2 = [.data chunk, .again] ∧ chunk.bytes = serialise part.1 := by
  intro part member
  cases a with
  | false =>
    cases List.mem_singleton.mp member
    exact ⟨hiThenZero_regular _ (by simp [hiThenZero]), postHiChunk, rfl, rfl⟩
  | true =>
    cases List.mem_singleton.mp member
    exact ⟨hiThenZero_regular _ (by simp [hiThenZero]), getZeroChunk, rfl, rfl⟩

theorem bothConnected_visited (callback : Callback Db) : Visited callback fromTo bothConnected where
  waits a := by
    refine ⟨accepted, rfl, ⟨rfl, rfl, rfl, rfl, rfl, rfl, ?_⟩, ?_, ?_⟩
    · simp [bothConnected, visitor]
    · simp [bothConnected, visitor, Granted]
    · simp [bothConnected, visitor, Polite]
  regular a part member := (fromTo_pieces a part member).1
  brings a part member := by
    obtain ⟨-, chunk, piece, bytes⟩ := fromTo_pieces a part member
    rw [piece]
    exact ⟨by simpa [received] using bytes, [], chunk, rfl, by simp⟩
  recvs _ := rfl
  clean crowd a c part rest _ _ _ member recvs := by
    obtain ⟨-, chunk, piece, bytes⟩ := fromTo_pieces a part member
    rw [piece] at recvs
    exact cleanStops_single recvs (by rw [bytes])

/-- Both are connected, and the one that asks has its response whatever the other one does. -/
theorem visitors_served_two : ∃ crowd log, Turns (following (mapFile [] .succeed)) bothConnected crowd ∧
    Told (ascii "Index.") [] fromTo bothConnected crowd log ∧ (own true log).map (·.message) = [getZero] := by
  have created : openDb none ⟨2⟩ .succeed = .ok (some visitor.app, some (freshFile 2)) := openDb_fresh (by decide)
  have everyone : ∀ a, a ∈ [false, true] := by decide
  obtain ⟨log, -, -, finish⟩ := visitors_served (follows_following (mapFile [] .succeed)) (by decide) (.created created)
    (bothConnected_visited _) everyone (by decide) (by decide) .refl
  obtain ⟨crowd, log', turns, -, told, all, -⟩ := finish true
  exact ⟨crowd, log', turns, told, all⟩

end Cask.Server
