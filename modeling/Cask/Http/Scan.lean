import Cask.Http.Tokens

/-! # Scanning the header block

`scan` is the loop of `parse_headers` with the test for the blank line confined to the
received bytes.  It depends on these alone, it can be resumed after more bytes have arrived,
and it differs from the loop of the source in one place: where the received bytes end before
a complete line, the source still looks at the next two bytes of memory.
-/

namespace Cask.Http

open Storage

/-- The second buffer holds the received bytes of the first one, and maybe more. -/
structure Extends (buf buf' : Buffer) : Prop where
  size : buf.size ≤ buf'.size
  bytes : AgreeBelow buf.size buf.data buf'.data

variable {buf buf' : Buffer} {req req' : Request}

theorem Extends.refl (buf : Buffer) : Extends buf buf := ⟨Nat.le_refl _, fun _ _ => rfl⟩

theorem holding_byte {bytes stale : List UInt8} {i : Nat} (inside : i < bytes.length) :
    (Buffer.holding bytes stale).data.byte i = bytes.getD i 0 := by
  simp only [Buffer.holding]
  rw [Image.write_byte_inside (by omega) (by simp only [List.length_append]; omega),
    List.getD_append _ _ _ _ (by omega)]
  rfl

theorem holding_agree (bytes stale stale' : List UInt8) :
    AgreeBelow bytes.length (Buffer.holding bytes stale).data
      (Buffer.holding bytes stale').data := by
  intro i inside
  rw [holding_byte inside, holding_byte inside]

theorem holding_extends (bytes more stale stale' : List UInt8) :
    Extends (.holding bytes stale) (.holding (bytes ++ more) stale') := by
  constructor
  · simp [Buffer.holding]
  · intro i bound
    have inside : i < bytes.length := bound
    rw [holding_byte inside, holding_byte (by simp only [List.length_append]; omega),
      List.getD_append _ _ _ _ inside]

/-- The number of received bytes that the searches for a line end consider. -/
def Buffer.seen (buf : Buffer) : Nat := (asInt buf.size).toNat

theorem seen_le (buf : Buffer) : buf.seen ≤ buf.size := by
  have := asInt_nat_le buf.size
  rw [Buffer.seen]
  omega

theorem seen_lt (buf : Buffer) : buf.seen < 2 ^ 31 := by
  have := asInt_lt buf.size
  rw [Buffer.seen]
  omega

theorem seen_eq (small : buf.size < 2 ^ 31) : buf.seen = buf.size := by
  rw [Buffer.seen, asInt_nat small]
  exact Int.toNat_natCast _

theorem seen_congr (size : buf.size = buf'.size) : buf.seen = buf'.seen :=
  by rw [Buffer.seen, Buffer.seen, size]

/-! ## The request line -/

section RequestLine

variable {data data' : Image} {lineLen : Nat}

theorem parseTokens_congr (agree : AgreeBelow lineLen data data') :
    parseTokens req data lineLen = parseTokens req data' lineLen := by
  have sameSplit : split data 0 lineLen 0 32 3 = split data' 0 lineLen 0 32 3 :=
    split_congr (by simpa using agree)
  unfold parseTokens
  rw [← sameSplit]
  have within : ∀ s ∈ split data 0 lineLen 0 32 3, s.Within 0 lineLen := fun s member => by
    simpa using split_within member
  split
  · next method uri version shape =>
    rw [shape] at within
    have named : ∀ {s : Str}, s.Within 0 lineLen →
      ∀ name, isNamed data s name = isNamed data' s name :=
      fun inside name => isNamed_congr inside agree
    have versionWithin := within version (by simp)
    simp only [named (within method (by simp)), named (trim_within versionWithin),
      trim_congr versionWithin agree]
  · rfl

/-- A line is accepted or rejected; if accepted, its uri is a part of the line that ends before a
space. -/
theorem parseTokens_cases (req : Request) (data : Image) (lineLen : Nat) :
    parseTokens req data lineLen = (.err, req) ∨
      ∃ method version uri, uri.Within 0 lineLen ∧ data.byte (uri.off + uri.len).toNat = 32 ∧
        parseTokens req data lineLen =
          (.ok, { req with method := method, version := version, uri := uri, readBytes := lineLen }) := by
  unfold parseTokens
  split
  · next method uri version shape =>
    have member : uri ∈ split data 0 lineLen 0 32 3 := by simp [shape]
    have within : uri.Within 0 lineLen := by simpa using split_within member
    have notLast : uri ∈ (split data 0 lineLen 0 32 3).dropLast := by simp [shape]
    have space : data.byte (uri.off + uri.len).toNat = 32 := by
      simpa using splitLoop_delim_behind (Nat.le_refl 0) notLast
    split
    · exact .inl rfl
    · split
      · exact .inl rfl
      · exact .inr ⟨_, _, uri, within, space, rfl⟩
  · exact .inl rfl

end RequestLine

/-! ## Header lines -/

section HeaderLine

variable {data data' : Image} {base len n : Nat}

/-- Both ranges of the header lie below `n`. -/
def HttpHeader.Within (header : HttpHeader) (n : Nat) : Prop :=
  header.key.Within 0 n ∧ header.val.Within 0 n

theorem HttpHeader.Within.mono {header : HttpHeader} {n' : Nat} (within : header.Within n)
    (more : n ≤ n') : header.Within n' :=
  ⟨within.1.mono (Int.le_refl _) (by omega), within.2.mono (Int.le_refl _) (by omega)⟩

theorem headerTokens_within (small : base < 2 ^ 31) (bound : base + len ≤ n) {s : Str}
    (member : s ∈ split data base len (asInt base) 58 2) : s.Within 0 n := by
  have within := split_within member
  rw [asInt_nat small] at within
  exact within.mono (by omega) (by omega)

theorem parseHeader_within (small : base < 2 ^ 31) (bound : base + len ≤ n) {header : HttpHeader}
    (parsed : parseHeader data base len = some header) : header.Within n := by
  unfold parseHeader at parsed
  split at parsed
  · next key val shape =>
    cases parsed
    have within : ∀ s ∈ split data base len (asInt base) 58 2, s.Within 0 n := fun s member =>
      headerTokens_within small bound member
    rw [shape] at within
    exact ⟨trim_within (within key (by simp)), trim_within (within val (by simp))⟩
  · cases parsed

theorem parseHeader_congr (small : base < 2 ^ 31) (agree : AgreeBelow (base + len) data data') :
    parseHeader data base len = parseHeader data' base len := by
  have sameSplit : split data base len (asInt base) 58 2 = split data' base len (asInt base) 58 2 :=
    split_congr agree
  unfold parseHeader
  rw [← sameSplit]
  split
  · next key val shape =>
    have within : ∀ s ∈ [key, val], s.Within 0 (base + len : Nat) := fun s member =>
      headerTokens_within small (Nat.le_refl _) (shape ▸ member)
    rw [trim_congr (within key (by simp)) agree, trim_congr (within val (by simp)) agree]
  · rfl

end HeaderLine

/-! ## The scan -/

/-- The loop of `parse_headers` on the received bytes alone. -/
def scan (buf : Buffer) : Nat → Request → ReqCode × Request
  | 0, req => (.ok, req)
  | left + 1, req =>
    if req.readBytes + 2 ≤ buf.size ∧ atBlankLine buf.data req.readBytes then
      (.ok, { req with readBytes := req.readBytes + 2 })
    else if asInt req.readBytes = req.readBytes then
      match span buf.data lf buf.seen req.readBytes with
      | none => (.uf, req)
      | some lineLen =>
        match parseHeader buf.data req.readBytes lineLen with
        | none => (.err, req)
        | some header =>
          scan buf left { req with headers := req.headers ++ [header], readBytes := req.readBytes + lineLen }
    else if asInt req.readBytes < asInt buf.size then (.trap, req)
    else (.uf, req)

/-- The look at the two bytes after the last complete line, when the received bytes have run out. -/
def lookPast (data : Image) : ReqCode × Request → ReqCode × Request
  | (.uf, req) =>
    if atBlankLine data req.readBytes then (.ok, { req with readBytes := req.readBytes + 2 }) else (.uf, req)
  | (.trap, req) =>
    if atBlankLine data req.readBytes then (.ok, { req with readBytes := req.readBytes + 2 }) else (.trap, req)
  | (code, req) => (code, req)

/-- The request after one more header line. -/
def Request.push (req : Request) (header : HttpHeader) (lineLen : Nat) : Request :=
  { req with headers := req.headers ++ [header], readBytes := req.readBytes + lineLen }

section Scan

variable {left : Nat}

/-- The code of a round whose read position does not fit an `int`. -/
def farCode (buf : Buffer) (pos : Nat) : ReqCode :=
  if asInt pos < asInt buf.size then .trap else .uf

theorem farCode_cases (buf : Buffer) (pos : Nat) :
    farCode buf pos = .uf ∨ farCode buf pos = .trap := by
  unfold farCode
  split
  · exact .inr rfl
  · exact .inl rfl

/-- A blank line in the received bytes, at the read position. -/
def Blank (buf : Buffer) (pos : Nat) : Prop := pos + 2 ≤ buf.size ∧ atBlankLine buf.data pos = true

theorem atBlankLine_iff {data : Image} {pos : Nat} :
    atBlankLine data pos = true ↔ data.byte pos = cr ∧ data.byte (pos + 1) = lf := by
  simp only [atBlankLine, Bool.and_eq_true, decide_eq_true_eq]

/-- A complete line that starts like a blank line has its second byte too. -/
theorem Blank.of_line {pos lineLen : Nat} (line : span buf.data lf buf.seen pos = some lineLen)
    (blank : atBlankLine buf.data pos = true) : Blank buf pos := by
  obtain ⟨positive, fits, last, _⟩ := span_some.mp line
  have longer : lineLen ≠ 1 := by
    rintro rfl
    rw [Nat.add_sub_cancel, (atBlankLine_iff.mp blank).1] at last
    exact absurd last (by decide)
  have := seen_le buf
  exact ⟨by omega, blank⟩

theorem Blank.extends {pos : Nat} (ext : Extends buf buf') (blank : Blank buf pos) :
    Blank buf' pos := by
  have size := ext.size
  obtain ⟨inside, blank⟩ := blank
  refine ⟨by omega, ?_⟩
  rw [atBlankLine_iff] at blank ⊢
  rw [← ext.bytes _ (by omega), ← ext.bytes _ (by omega)]
  exact blank

theorem scan_blank (blank : Blank buf req.readBytes) :
    scan buf (left + 1) req = (.ok, { req with readBytes := req.readBytes + 2 }) := if_pos blank

theorem scan_far (notBlank : ¬ Blank buf req.readBytes) (far : 2 ^ 31 ≤ req.readBytes) :
    scan buf (left + 1) req = (farCode buf req.readBytes, req) := by
  have differ : ¬ asInt req.readBytes = req.readBytes := by
    rw [asInt_eq_nat]
    omega
  refine (if_neg notBlank).trans ((if_neg differ).trans ?_)
  rw [farCode]
  split <;> rfl

theorem scan_stuck (notBlank : ¬ Blank buf req.readBytes) (near : req.readBytes < 2 ^ 31)
    (line : span buf.data lf buf.seen req.readBytes = none) :
    scan buf (left + 1) req = (.uf, req) := by
  refine (if_neg notBlank).trans ((if_pos (asInt_nat near)).trans ?_)
  rw [line]

theorem scan_line {lineLen : Nat} (notBlank : ¬ Blank buf req.readBytes) (near : req.readBytes < 2 ^ 31)
    (line : span buf.data lf buf.seen req.readBytes = some lineLen) :
    scan buf (left + 1) req = match parseHeader buf.data req.readBytes lineLen with
      | none => (.err, req)
      | some header => scan buf left (req.push header lineLen) := by
  refine (if_neg notBlank).trans ((if_pos (asInt_nat near)).trans ?_)
  rw [line]
  rfl

/-- Where a round of the scan finds itself: at a blank line, out of range, without a complete
line, or at a line. -/
theorem line_cases (buf : Buffer) (pos : Nat) :
    Blank buf pos ∨ (¬ Blank buf pos ∧ 2 ^ 31 ≤ pos) ∨
    (¬ Blank buf pos ∧ pos < 2 ^ 31 ∧ span buf.data lf buf.seen pos = none) ∨
    ∃ lineLen, ¬ Blank buf pos ∧ pos < 2 ^ 31 ∧ span buf.data lf buf.seen pos = some lineLen ∧
      pos + lineLen ≤ buf.seen := by
  by_cases blank : Blank buf pos
  · exact .inl blank
  by_cases far : 2 ^ 31 ≤ pos
  · exact .inr (.inl ⟨blank, far⟩)
  cases line : span buf.data lf buf.seen pos with
  | none => exact .inr (.inr (.inl ⟨blank, by omega, rfl⟩))
  | some lineLen => exact .inr (.inr (.inr ⟨lineLen, blank, by omega, rfl, (span_some.mp line).2.1⟩))

/-- `q` is `req` after some header lines of the received bytes. -/
def Moved (buf : Buffer) (req q : Request) : Prop :=
  ∃ headers pos, (∀ header ∈ headers, header.Within buf.size) ∧ pos ≤ max req.readBytes buf.size ∧
    q = { req with headers := req.headers ++ headers, readBytes := pos }

theorem Moved.stop {pos : Nat} (high : pos ≤ max req.readBytes buf.size) :
    Moved buf req { req with readBytes := pos } :=
  ⟨[], pos, fun _ member => (List.not_mem_nil member).elim, high, by simp⟩

theorem Moved.push {header : HttpHeader} {lineLen : Nat} {q : Request}
    (within : header.Within buf.size) (bound : req.readBytes + lineLen ≤ buf.size)
    (rest : Moved buf (req.push header lineLen) q) : Moved buf req q := by
  obtain ⟨headers, pos, inside, high, rfl⟩ := rest
  simp only [Request.push] at high
  refine ⟨header :: headers, pos, ?_, by omega, by simp [Request.push]⟩
  intro h member
  rcases List.mem_cons.mp member with rfl | later
  · exact within
  · exact inside h later

theorem scan_moved (buf : Buffer) (left : Nat) (req : Request) :
    Moved buf req (scan buf left req).2 := by
  induction left generalizing req with
  | zero => exact .stop (Nat.le_max_left _ _)
  | succ left ih =>
    rcases line_cases buf req.readBytes with
      blank | ⟨notBlank, far⟩ | ⟨notBlank, near, line⟩ | ⟨lineLen, notBlank, near, line, bound⟩
    · rw [scan_blank blank]
      exact .stop (Nat.le_trans blank.1 (Nat.le_max_right _ _))
    · rw [scan_far notBlank far]
      exact .stop (Nat.le_max_left _ _)
    · rw [scan_stuck notBlank near line]
      exact .stop (Nat.le_max_left _ _)
    · have inside := Nat.le_trans bound (seen_le buf)
      rw [scan_line notBlank near line]
      cases parsed : parseHeader buf.data req.readBytes lineLen with
      | none => exact .stop (Nat.le_max_left _ _)
      | some header => exact .push (parseHeader_within near inside parsed) inside (ih _)

/-- The loop of the source is the scan, followed by a look past the received bytes. -/
theorem headersLoop_eq (buf : Buffer) (left : Nat) (req : Request) :
    headersLoop buf left req = lookPast buf.data (scan buf left req) := by
  induction left generalizing req with
  | zero => rfl
  | succ left ih =>
    have start : headersLoop buf (left + 1) req =
        if atBlankLine buf.data req.readBytes then (.ok, { req with readBytes := req.readBytes + 2 })
        else if asInt req.readBytes = req.readBytes then
          match span buf.data lf buf.seen req.readBytes with
          | none => (.uf, req)
          | some lineLen =>
            match parseHeader buf.data req.readBytes lineLen with
            | none => (.err, req)
            | some header => headersLoop buf left (req.push header lineLen)
        else if asInt req.readBytes < asInt buf.size then (.trap, req)
        else (.uf, req) := rfl
    rw [start]
    rcases line_cases buf req.readBytes with
      blank | ⟨notBlank, far⟩ | ⟨notBlank, near, line⟩ | ⟨lineLen, notBlank, near, line, bound⟩
    · rw [scan_blank blank, if_pos blank.2]
      rfl
    · have differ : ¬ asInt req.readBytes = req.readBytes := by
        rw [asInt_eq_nat]
        omega
      rw [scan_far notBlank far, if_neg differ, farCode]
      split <;> split <;> simp [lookPast, *]
    · rw [scan_stuck notBlank near line, if_pos (asInt_nat near), line]
      rfl
    · -- a whole line is there, so the look at the blank line stays inside
      have lineBlank : ¬ atBlankLine buf.data req.readBytes = true :=
        fun blank => notBlank (.of_line line blank)
      rw [scan_line notBlank near line, if_neg lineBlank, if_pos (asInt_nat near), line]
      dsimp only
      cases parsed : parseHeader buf.data req.readBytes lineLen with
      | none => rfl
      | some header => exact ih _

/-- Received bytes that have been scanned are scanned in the same way when there are more of them;
a scan that ran out of bytes can be resumed where it stopped. -/
theorem scan_extends (left : Nat) (req : Request) (ext : Extends buf buf')
    (small : buf'.size < 2 ^ 31) (near : req.readBytes < 2 ^ 31) :
    (∃ q, scan buf left req = (.ok, q) ∧ scan buf' left req = (.ok, q)) ∨
    (∃ q, scan buf left req = (.err, q) ∧ scan buf' left req = (.err, q)) ∨
    ∃ q rest, scan buf left req = (.uf, q) ∧ rest < left ∧
      rest + 1 + q.headers.length = left + req.headers.length ∧
      scan buf' left req = scan buf' (rest + 1) q := by
  have smaller : buf.size < 2 ^ 31 := Nat.lt_of_le_of_lt ext.size small
  have more : buf.seen ≤ buf'.seen := by
    rw [seen_eq smaller, seen_eq small]
    exact ext.size
  have agree : AgreeBelow buf.seen buf.data buf'.data := ext.bytes.mono (seen_le buf)
  induction left generalizing req with
  | zero => exact .inl ⟨req, rfl, rfl⟩
  | succ left ih =>
    rcases line_cases buf req.readBytes with
      blank | ⟨_, far⟩ | ⟨notBlank, _, line⟩ | ⟨lineLen, notBlank, _, line, bound⟩
    · exact .inl ⟨_, scan_blank blank, scan_blank (blank.extends ext)⟩
    · omega
    · exact .inr (.inr ⟨req, left, scan_stuck notBlank near line, by omega, by omega, rfl⟩)
    · have line' := span_mono agree more line
      have sameHeader : parseHeader buf.data req.readBytes lineLen = parseHeader buf'.data req.readBytes lineLen :=
        parseHeader_congr near (agree.mono bound)
      have notBlank' : ¬ Blank buf' req.readBytes := by
        intro blank
        obtain ⟨positive, fits, last, earlier⟩ := span_some.mp line'
        obtain ⟨first, second⟩ := atBlankLine_iff.mp blank.2
        -- the blank line is the line that was found, so all of it was received before
        have short : ¬ 2 < lineLen :=
          fun long => earlier (req.readBytes + 1) (by omega) (by omega) second
        have longer : lineLen ≠ 1 := by
          rintro rfl
          rw [Nat.add_sub_cancel, first] at last
          exact absurd last (by decide)
        refine notBlank (.of_line line (atBlankLine_iff.mpr ?_))
        rw [agree _ (by omega), agree _ (by omega)]
        exact ⟨first, second⟩
      rw [scan_line notBlank near line, scan_line notBlank' near line', ← sameHeader]
      cases parsed : parseHeader buf.data req.readBytes lineLen with
      | none => exact .inr (.inl ⟨req, rfl, rfl⟩)
      | some header =>
        have further := seen_lt buf
        have next := ih (req.push header lineLen) (by simp only [Request.push]; omega)
        have count : left + (req.push header lineLen).headers.length = left + 1 + req.headers.length := by
          simp only [Request.push, List.length_append, List.length_singleton]
          omega
        rw [count] at next
        rcases next with ended | ended | ⟨q, rest, stopped, fewer, left, resumed⟩
        · exact .inl ended
        · exact .inr (.inl ended)
        · exact .inr (.inr ⟨q, rest, stopped, by omega, left, resumed⟩)

/-- The scan only depends on the received bytes. -/
theorem scan_congr (size : buf.size = buf'.size) (agree : AgreeBelow buf.size buf.data buf'.data) :
    scan buf left req = scan buf' left req := by
  have ext : Extends buf buf' := ⟨Nat.le_of_eq size, agree⟩
  have ext' : Extends buf' buf := ⟨Nat.le_of_eq size.symm, size ▸ agree.symm⟩
  have seen := seen_congr size
  induction left generalizing req with
  | zero => rfl
  | succ left ih =>
    have sameSpan : span buf'.data lf buf'.seen req.readBytes = span buf.data lf buf.seen req.readBytes := by
      rw [← seen, span_congr (agree.mono (seen_le buf))]
    have notBlank' : ¬ Blank buf req.readBytes → ¬ Blank buf' req.readBytes := fun absent blank =>
      absent (blank.extends ext')
    rcases line_cases buf req.readBytes with
      blank | ⟨notBlank, far⟩ | ⟨notBlank, near, line⟩ | ⟨lineLen, notBlank, near, line, bound⟩
    · rw [scan_blank blank, scan_blank (blank.extends ext)]
    · rw [scan_far notBlank far, scan_far (notBlank' notBlank) far, farCode, farCode, size]
    · rw [scan_stuck notBlank near line, scan_stuck (notBlank' notBlank) near (sameSpan.trans line)]
    · have inside := Nat.le_trans bound (seen_le buf)
      rw [scan_line notBlank near line, scan_line (notBlank' notBlank) near (sameSpan.trans line),
        ← parseHeader_congr near (agree.mono inside)]
      cases parsed : parseHeader buf.data req.readBytes lineLen with
      | none => rfl
      | some header => exact ih

end Scan

end Cask.Http
