import Cask.Connection.Pipeline

/-! # Keep-alive

Whether a connection is kept is a flag of the connection, not of the request: `parse_request`
sets it for a request of version 1.1, and nothing clears it.  A later request of another
version is answered as if it had asked for the connection to be kept.
-/

namespace Cask.Conn

open Storage Http

variable {σ : Type} {callback : Callback σ} {c : Connection} {io : Io σ}

/-- The reply is the one that the request alone asks for: the headers of a kept connection, and the
connection kept, exactly for version 1.1. -/
def AsFresh (reply : Reply σ) : Prop :=
  reply.text = responseText reply.req.version (reply.req.version == .http11) reply.status reply.body ∧
    reply.kept = (reply.req.version == .http11)

theorem asFresh_iff {reply : Reply σ} {result : Option Connection × Io σ}
    (exchange : Exchange callback c io reply result) (waits : Waits c io) :
    AsFresh reply ↔ c.keepAlive = false ∨ reply.req.version = .http11 := by
  obtain ⟨complete, sent, kept, -⟩ := exchange.complete waits.idle.ready waits.granted waits.polite
  have text := List.append_cancel_left (sent.symm.trans complete.sent)
  have flag := kept.trans complete.flag
  have decided : AsFresh reply ↔ (c.keepAlive || reply.req.version == .http11) = (reply.req.version == .http11) := by
    constructor
    · rintro ⟨-, same⟩
      exact flag.symm.trans same
    · intro same
      rw [same] at text flag
      exact ⟨text, flag⟩
  rw [decided]
  cases c.keepAlive <;> simp

theorem Session.waits {replies : List (Reply σ)} {result : Option Connection × Io σ}
    (session : Session callback c io replies result) (waits : Waits c io)
    (fresh : c.keepAlive = false) :
    ∀ c' io', result = (some c', io') → Waits c' io' ∧ (c'.keepAlive = false ↔ replies = []) := by
  induction session with
  | start =>
    intro c' io' same
    cases same
    exact ⟨waits, iff_of_true fresh rfl⟩
  | next _ exchange ih =>
    intro c' io' same
    subst same
    obtain ⟨earlier, -⟩ := ih _ _ rfl
    obtain ⟨waits', flag⟩ := exchange.waits earlier
    exact ⟨waits', iff_of_false (by simp [flag]) (by simp)⟩

/-- A request is answered as on a fresh connection exactly when it is the first one or its version
is 1.1. -/
theorem asFresh_session_iff {replies : List (Reply σ)} {result : Option Connection × Io σ}
    (session : Session callback c io replies result) (waits : Waits c io)
    (fresh : c.keepAlive = false) {i : Nat} {reply : Reply σ} (served : replies[i]? = some reply) :
    AsFresh reply ↔ i = 0 ∨ reply.req.version = .http11 := by
  induction session with
  | start => cases served
  | @next c' io' replies' reply' _ earlier exchange ih =>
    by_cases inside : i < replies'.length
    · rw [List.getElem?_append_left inside] at served
      exact ih served
    · -- the last request: the flag was set by the first one, if there was one before
      rw [List.getElem?_append_right (by omega)] at served
      have last : i - replies'.length = 0 := by
        by_contra later
        rw [List.getElem?_eq_none (by simp; omega)] at served
        cases served
      rw [last] at served
      cases served
      obtain ⟨waits', first⟩ := earlier.waits waits fresh c' io' rfl
      rw [asFresh_iff exchange waits', first, ← List.length_eq_zero_iff]
      have position : replies'.length = 0 ↔ i = 0 := by omega
      rw [position]

/-- The request of an older client. -/
def oldHome : Message := { home with version := .http10 }

theorem oldHome_plain : oldHome.Plain :=
  ⟨by decide +kernel, by decide, fun _ member => (nomatch member), fun _ member => (nomatch member),
    by decide, rfl⟩

def oneOldHome : Chunk := ⟨serialise oldHome, by decide +kernel, by decide +kernel⟩

/-- A request of version 1.1, and then one of version 1.0. -/
def mixed : Io Unit := arrives [.data oneHome, .again, .data oneOldHome, .again]

/-- Both are answered. -/
theorem exists_session_mixed :
    ∃ first second c' io' result, Exchange emptyPage accepted mixed first (some c', io') ∧
    Waits c' io' ∧ c'.keepAlive = true ∧ Exchange emptyPage c' io' second result ∧
      second.req.version = .http10 := by
  have brings : Brings home [.data oneHome, .again] :=
    ⟨List.append_nil _, [], oneHome, rfl, fun _ member => nomatch member⟩
  have brings' : Brings oldHome [.data oneOldHome, .again] :=
    ⟨List.append_nil _, [], oneOldHome, rfl, fun _ member => nomatch member⟩
  have waits : Waits accepted mixed := accepted_waits _
  have recvs : mixed.recvs = [.data oneHome, .again] ++ [.data oneOldHome, .again] := rfl
  have clean : CleanStops emptyPage accepted mixed home := cleanStops_single rfl rfl
  obtain ⟨first, ⟨conn, io'⟩, -, exchange, reads, -, left⟩ :=
    exchange_of_message home_plain (by decide +kernel) waits brings recvs clean
  -- the first response asks for the connection to be kept
  obtain ⟨complete, -⟩ := exchange.complete waits.idle.ready waits.granted waits.polite
  have flag : (accepted.keepAlive || first.req.version == .http11) = true := by
    rw [reads.version]
    rfl
  obtain ⟨c', rfl, -⟩ := complete.kept flag
  obtain ⟨waits', kept⟩ := exchange.waits waits
  have recvs' : io'.recvs = [.data oneOldHome, .again] ++ [] := left
  have clean' : CleanStops emptyPage c' io' oldHome := cleanStops_single recvs' rfl
  obtain ⟨second, result, -, exchange', reads', -⟩ :=
    exchange_of_message oldHome_plain (by decide +kernel) waits' brings' recvs' clean'
  exact ⟨first, second, c', io', result, exchange, waits', kept, exchange', reads'.version⟩

/-- The first of two requests is answered as on a fresh connection, as every request of version 1.1 is. -/
theorem asFresh_session_iff_first : ∃ first second result,
    Session emptyPage accepted mixed [first, second] result ∧ AsFresh first := by
  obtain ⟨first, second, c', io', result, exchange, -, -, exchange', -⟩ := exists_session_mixed
  have session : Session emptyPage accepted mixed [first, second] result :=
    (Session.start.next exchange).next exchange'
  exact ⟨first, second, result, session,
    (asFresh_session_iff session (accepted_waits _) rfl (i := 0) rfl).mpr (.inl rfl)⟩

/-- The second one, of version 1.0, is not. -/
theorem not_asFresh_second :
    ∃ first second result, Waits accepted mixed ∧ accepted.keepAlive = false ∧
    Session emptyPage accepted mixed [first, second] result ∧ second.req.version = .http10 ∧
      ¬ AsFresh second := by
  obtain ⟨first, second, c', io', result, exchange, waits, kept, exchange', version⟩ :=
    exists_session_mixed
  refine ⟨first, second, result, accepted_waits _, rfl,
    (Session.start.next exchange).next exchange', version, ?_⟩
  rw [asFresh_iff exchange' waits, kept, version]
  decide

end Cask.Conn
