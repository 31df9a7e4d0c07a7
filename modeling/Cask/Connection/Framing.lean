import Cask.Connection.KeepAlive

/-! # What a client reads

The responses of a connection follow each other without anything in between, and a body may hold any
bytes.  A client that reads the lines of a head, takes the length from it and then that many bytes
finds the same responses again: for every request the version, the status and the body, and whether
the connection stays open.
-/

namespace Cask.Conn

open Storage Http

/-! ## Reading -/

/-- The bytes in front of the first line end, and those behind it. -/
def readLine : List UInt8 → Option (List UInt8 × List UInt8)
  | [] => none
  | [_] => none
  | a :: b :: rest =>
    if a = cr ∧ b = lf then some ([], rest)
    else (readLine (b :: rest)).map fun read => (a :: read.1, read.2)

/-- The lines in front of the first empty one. -/
def readHead : Nat → List UInt8 → Option (List (List UInt8) × List UInt8)
  | 0, _ => none
  | fuel + 1, stream => do
    let (line, rest) ← readLine stream
    if line = [] then return ([], rest)
    else
      let (lines, rest) ← readHead fuel rest
      return (line :: lines, rest)

def lengthKey : List UInt8 := contentLength ++ ascii ": "

/-- The length that a head announces. -/
def announced (head : List (List UInt8)) : Option Nat :=
  (head.find? lengthKey.isPrefixOf).map fun line => digitsValue (line.drop lengthKey.length)

structure Answer where
  version : HttpVersion
  status : HttpStatus
  body : List UInt8
  kept : Bool
  deriving DecidableEq, Repr

/-- A status line without its end. -/
def statusOf (version : HttpVersion) (status : HttpStatus) : List UInt8 :=
  versionName version ++ ascii " " ++ statusText status

def versions : List HttpVersion := [.http10, .http11, .http20]

def statuses : List HttpStatus := [.status200, .status400, .status404, .status500]

/-- The version and the status that a line stands for. -/
def readStatus (line : List UInt8) : Option (HttpVersion × HttpStatus) :=
  (versions.flatMap fun version => statuses.map (Prod.mk version)).find? fun pair => statusOf pair.1 pair.2 = line

/-- One response, and what follows it. -/
def readResponse (stream : List UInt8) : Option (Answer × List UInt8) := do
  let (line, rest) ← readLine stream
  let (version, status) ← readStatus line
  let (head, rest) ← readHead rest.length rest
  let length ← announced head
  if rest.length < length then none
  else return (⟨version, status, rest.take length, head.contains (ascii "Connection: keep-alive")⟩, rest.drop length)

/-- All responses of a stream. -/
def readResponses : Nat → List UInt8 → Option (List Answer)
  | _, [] => some []
  | 0, _ :: _ => none
  | fuel + 1, byte :: stream => do
    let (answer, rest) ← readResponse (byte :: stream)
    let answers ← readResponses fuel rest
    return answer :: answers

/-! ## Reading what was written -/

section RoundTrip

variable {line rest : List UInt8}

theorem readLine_crlf (clean : cr ∉ line) (rest : List UInt8) :
    readLine (line ++ crlf ++ rest) = some (line, rest) := by
  induction line with
  | nil => simp [readLine, crlf]
  | cons a line ih =>
    rw [List.mem_cons, not_or] at clean
    have later := ih clean.2
    have other : ¬ (a = cr) := fun same => clean.1 same.symm
    cases line with
    | nil =>
      simp only [crlf, List.cons_append, List.nil_append] at later ⊢
      rw [readLine, if_neg (fun both => other both.1), later]
      rfl
    | cons b line =>
      simp only [List.cons_append] at later ⊢
      rw [readLine, if_neg (fun both => other both.1), later]
      rfl

theorem statusOf_clean (version : HttpVersion) (status : HttpStatus) : cr ∉ statusOf version status := by
  cases version <;> cases status <;> decide +kernel

theorem readStatus_statusOf (version : HttpVersion) (status : HttpStatus) :
    readStatus (statusOf version status) = some (version, status) := by
  cases version <;> cases status <;> decide +kernel

/-- Lines with their ends. -/
def lines (head : List (List UInt8)) : List UInt8 := head.flatMap (· ++ crlf)

theorem readHead_lines {head : List (List UInt8)} {fuel : Nat} (clean : ∀ line ∈ head, line ≠ [] ∧ cr ∉ line)
    (enough : head.length < fuel) (rest : List UInt8) :
    readHead fuel (lines head ++ crlf ++ rest) = some (head, rest) := by
  induction head generalizing fuel with
  | nil =>
    obtain ⟨fuel, rfl⟩ : ∃ k, fuel = k + 1 := ⟨fuel - 1, by simp at enough; omega⟩
    have first : readLine (crlf ++ rest) = some ([], rest) := readLine_crlf List.not_mem_nil rest
    simp [readHead, lines, first]
  | cons line head ih =>
    rw [List.length_cons] at enough
    obtain ⟨fuel, rfl⟩ : ∃ k, fuel = k + 1 := ⟨fuel - 1, by omega⟩
    obtain ⟨nonempty, plain⟩ := clean line List.mem_cons_self
    have first : readLine (lines (line :: head) ++ crlf ++ rest) = some (line, lines head ++ crlf ++ rest) := by
      have split : lines (line :: head) ++ crlf ++ rest = line ++ crlf ++ (lines head ++ crlf ++ rest) := by
        simp [lines]
      rw [split, readLine_crlf plain]
    have later := ih (fun line member => clean line (List.mem_cons_of_mem _ member)) (by omega : head.length < fuel)
    rw [readHead, first]
    simp only [Option.bind_eq_bind, Option.bind_some, nonempty, if_false, later, Option.pure_def]

/-- The lines of the head of a response, without the first one. -/
def headOf (keepAlive : Bool) (length : Nat) : List (List UInt8) :=
  (if keepAlive then [ascii "Connection: keep-alive", ascii "Keep-Alive: timeout=5"] else []) ++
    [lengthKey ++ decimal length]

theorem responseText_eq (version : HttpVersion) (keepAlive : Bool) (status : HttpStatus) (body : List UInt8) :
    responseText version keepAlive status body =
      statusOf version status ++ crlf ++ (lines (headOf keepAlive body.length) ++ crlf ++ body) := by
  have connection : connectionLine = ascii "Connection: keep-alive" ++ crlf := by decide +kernel
  have timeout : keepAliveLine = ascii "Keep-Alive: timeout=5" ++ crlf := by decide +kernel
  cases keepAlive <;>
    simp [responseText, statusLine, statusOf, headOf, lines, lengthKey, contentLengthLine, connection, timeout]

theorem decimal_clean (n : Nat) : cr ∉ decimal n := by
  intro member
  have digit := (decimal_digits n).2 cr member
  simp [isDigit, cr] at digit

theorem headOf_clean (keepAlive : Bool) (length : Nat) : ∀ line ∈ headOf keepAlive length, line ≠ [] ∧ cr ∉ line := by
  have last : lengthKey ++ decimal length ≠ [] ∧ cr ∉ lengthKey ++ decimal length := by
    have key : lengthKey ≠ [] ∧ cr ∉ lengthKey := by decide +kernel
    simp [key.1, key.2, decimal_clean]
  have first : ascii "Connection: keep-alive" ≠ [] ∧ cr ∉ ascii "Connection: keep-alive" := by decide +kernel
  have second : ascii "Keep-Alive: timeout=5" ≠ [] ∧ cr ∉ ascii "Keep-Alive: timeout=5" := by decide +kernel
  intro line member
  cases keepAlive with
  | false =>
    simp only [headOf, Bool.false_eq_true, if_false, List.nil_append, List.mem_singleton] at member
    rw [member]
    exact last
  | true =>
    simp only [headOf, if_true, List.cons_append, List.nil_append, List.mem_cons, List.not_mem_nil, or_false] at member
    obtain rfl | rfl | rfl := member
    · exact first
    · exact second
    · exact last

theorem announced_headOf (keepAlive : Bool) (length : Nat) : announced (headOf keepAlive length) = some length := by
  have mine : lengthKey.isPrefixOf (lengthKey ++ decimal length) = true := by simp
  have connection : lengthKey.isPrefixOf (ascii "Connection: keep-alive") = false := by decide +kernel
  have timeout : lengthKey.isPrefixOf (ascii "Keep-Alive: timeout=5") = false := by decide +kernel
  cases keepAlive <;> simp [announced, headOf, connection, timeout, mine, digitsValue_decimal]

theorem contains_headOf (keepAlive : Bool) (length : Nat) :
    (headOf keepAlive length).contains (ascii "Connection: keep-alive") = keepAlive := by
  cases keepAlive with
  | true => simp [headOf]
  | false =>
    -- the two keys part after four letters
    have differ : ascii "Connection: keep-alive" ≠ lengthKey ++ decimal length := by
      intro same
      have front := congrArg (List.take 4) same
      rw [List.take_append_of_le_length (by decide)] at front
      exact absurd front (by decide +kernel)
    simp [headOf, differ]

theorem readResponse_responseText (version : HttpVersion) (keepAlive : Bool) (status : HttpStatus)
    (body rest : List UInt8) :
    readResponse (responseText version keepAlive status body ++ rest) =
      some (⟨version, status, body, keepAlive⟩, rest) := by
  have first := readLine_crlf (statusOf_clean version status)
    (lines (headOf keepAlive body.length) ++ crlf ++ (body ++ rest))
  have few : (headOf keepAlive body.length).length <
      (lines (headOf keepAlive body.length) ++ crlf ++ (body ++ rest)).length := by
    simp only [lines, List.length_append, List.length_flatMap]
    cases keepAlive <;> simp [headOf, crlf] <;> omega
  have head := readHead_lines (headOf_clean keepAlive body.length) few (body ++ rest)
  have whole : responseText version keepAlive status body ++ rest = statusOf version status ++ crlf ++
      (lines (headOf keepAlive body.length) ++ crlf ++ (body ++ rest)) := by
    simp [responseText_eq]
  rw [readResponse, whole, first]
  simp only [Option.bind_eq_bind, Option.bind_some, readStatus_statusOf, head, announced_headOf, contains_headOf]
  rw [if_neg (by simp)]
  simp

/-- A stream of responses is read back as a whole. -/
theorem readResponses_flatten (answers : List Answer) {fuel : Nat} (enough : answers.length ≤ fuel) :
    readResponses fuel
      (answers.map fun answer => responseText answer.version answer.kept answer.status answer.body).flatten =
      some answers := by
  induction answers generalizing fuel with
  | nil => cases fuel <;> rfl
  | cons answer answers ih =>
    obtain ⟨fuel, rfl⟩ : ∃ k, fuel = k + 1 := ⟨fuel - 1, by simp at enough; omega⟩
    have more : answers.length ≤ fuel := by simpa using enough
    rw [List.map_cons, List.flatten_cons]
    have nonempty := responseText_ne_nil answer.version answer.kept answer.status answer.body
    generalize tail : (answers.map fun answer =>
      responseText answer.version answer.kept answer.status answer.body).flatten = stream at ih ⊢
    have read := readResponse_responseText answer.version answer.kept answer.status answer.body stream
    obtain ⟨byte, text, shape⟩ := List.exists_cons_of_ne_nil nonempty
    rw [shape, List.cons_append] at read ⊢
    rw [readResponses, read]
    simp only [Option.bind_eq_bind, Option.bind_some, ih more, Option.pure_def]

end RoundTrip

/-! ## Sessions -/

section Sessions

variable {σ : Type} {callback : Callback σ} {c : Connection} {io : Io σ}

/-- What a reply is for the client. -/
def Reply.answer (reply : Reply σ) : Answer := ⟨reply.req.version, reply.status, reply.body, reply.kept⟩

def Answer.text (answer : Answer) : List UInt8 :=
  responseText answer.version answer.kept answer.status answer.body

/-- A connection announces that it is kept exactly when it is. -/
theorem Exchange.text {reply : Reply σ} {result : Option Connection × Io σ}
    (exchange : Exchange callback c io reply result) (waits : Waits c io) :
    result.2.sent = io.sent ++ reply.answer.text := by
  obtain ⟨complete, -, kept, -⟩ := exchange.complete waits.idle.ready waits.granted waits.polite
  rw [complete.sent, ← complete.flag, ← kept]
  rfl

theorem Session.sent {replies : List (Reply σ)} {result : Option Connection × Io σ}
    (session : Session callback c io replies result) (waits : Waits c io) :
    result.2.sent = io.sent ++ (replies.map fun reply => reply.answer.text).flatten ∧
      ∀ c' io', result = (some c', io') → Waits c' io' := by
  induction session with
  | start =>
    refine ⟨by simp, fun c' io' same => ?_⟩
    cases same
    exact waits
  | @next c' io' replies reply result _ exchange ih =>
    obtain ⟨sent, later⟩ := ih
    have ready := later c' io' rfl
    constructor
    · dsimp only at sent
      rw [exchange.text ready, sent]
      simp
    · intro c'' io'' same
      subst same
      exact (exchange.waits ready).1

/-- From the bytes that a connection sent, a client reads one answer for every request that was
served, in their order: its version, its status and its body, and whether the connection was kept. -/
theorem client_reads_answers {replies : List (Reply σ)} {result : Option Connection × Io σ}
    (session : Session callback c io replies result) (waits : Waits c io) :
    ∃ sent, result.2.sent = io.sent ++ sent ∧
      ∀ fuel, replies.length ≤ fuel → readResponses fuel sent = some (replies.map Reply.answer) := by
  refine ⟨_, (session.sent waits).1, fun fuel enough => ?_⟩
  have read := readResponses_flatten (replies.map Reply.answer) (by simpa using enough)
  rwa [List.map_map] at read

theorem client_reads_answers_mixed : ∃ first second result, Session emptyPage accepted mixed [first, second] result ∧
    readResponses 2 result.2.sent = some [first.answer, second.answer] := by
  obtain ⟨first, second, c', io', result, exchange, -, -, exchange', -⟩ := exists_session_mixed
  have session : Session emptyPage accepted mixed [first, second] result := (Session.start.next exchange).next exchange'
  obtain ⟨sent, same, read⟩ := client_reads_answers session (accepted_waits _)
  refine ⟨first, second, result, session, ?_⟩
  rw [same]
  exact read 2 (Nat.le_refl 2)

end Sessions

end Cask.Conn
