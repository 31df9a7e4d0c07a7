import Cask.Http.HeaderBlock

/-! # The announced length

`Content-Length` as a number: the digits of its value, and what the parser takes from it with
`strtol` and a conversion to `int`.
-/

namespace Cask.Http

open Storage

variable {buf : Buffer} {req q : Request} {header : HttpHeader}

/-- The header is that of a complete line of the received bytes. -/
def FromLine (buf : Buffer) (header : HttpHeader) : Prop :=
  ∃ pos len, pos < 2 ^ 31 ∧ span buf.data lf buf.seen pos = some len ∧
    parseHeader buf.data pos len = some header

theorem scan_fromLine (left : Nat) (before : ∀ header ∈ req.headers, FromLine buf header) :
    ∀ header ∈ (scan buf left req).2.headers, FromLine buf header := by
  induction left generalizing req with
  | zero => exact before
  | succ left ih =>
    rcases line_cases buf req.readBytes with
      blank | ⟨notBlank, far⟩ | ⟨notBlank, near, line⟩ | ⟨lineLen, notBlank, near, line, bound⟩
    · rw [scan_blank blank]
      exact before
    · rw [scan_far notBlank far]
      exact before
    · rw [scan_stuck notBlank near line]
      exact before
    · rw [scan_line notBlank near line]
      cases parsed : parseHeader buf.data req.readBytes lineLen with
      | none => exact before
      | some header =>
        apply ih
        intro h member
        rcases List.mem_append.mp member with old | new
        · exact before h old
        · obtain rfl : h = header := List.mem_singleton.mp new
          exact ⟨req.readBytes, lineLen, near, line, parsed⟩

theorem isBlank_not_digit {c : UInt8} (blank : isBlank c = true) : isDigit c = false := by
  simp only [isBlank, Bool.or_eq_true, decide_eq_true_eq] at blank
  rcases blank with ((rfl | rfl) | rfl) | rfl <;> rfl

/-- A value that is not empty ends in front of a byte that is no digit: a blank, or the end of
the line. -/
theorem FromLine.value_ends (fromLine : FromLine buf header) (nonempty : 0 < header.val.len) :
    0 ≤ header.val.off ∧ isDigit (buf.data.byte (header.val.off + header.val.len).toNat) =
      false := by
  obtain ⟨pos, len, near, line, parsed⟩ := fromLine
  unfold parseHeader at parsed
  rw [asInt_nat near] at parsed
  split at parsed
  · next key val shape =>
    cases parsed
    dsimp only at nonempty ⊢
    have inside : val ∈ split buf.data pos len pos 58 2 := by simp [shape]
    obtain ⟨low, positive, high⟩ := split_within inside
    have trimmed : Trimmed buf.data val (trim buf.data val) := trim_trimmed (by omega) positive
    have ends := split_end shape
    obtain ⟨-, fits, last, -⟩ := span_some.mp line
    have front := trimmed.front
    have back := trimmed.back
    refine ⟨by omega, ?_⟩
    by_cases inner : (trim buf.data val).off + (trim buf.data val).len < val.off + val.len
    · apply isBlank_not_digit
      exact trimmed.blankBack _ (by omega) (by omega)
    · -- the value would end with the line feed of its line
      have sharp := trimmed.last nonempty
      rw [show ((trim buf.data val).off + (trim buf.data val).len - 1).toNat = pos + len - 1 by omega, last] at sharp
      exact absurd sharp (by decide)
  · cases parsed

theorem text_length (data : Image) (s : Str) : (text data s).length = s.len.toNat :=
  Image.slice_length _ _ _

/-- Digits that end before another byte are read as their value, clamped to `long` and narrowed. -/
theorem numberAt_digits {data : Image} {s : Str} (low : 0 ≤ s.off) (digits : Digits (text data s))
    (ends : isDigit (data.byte (s.off + s.len).toNat) = false) :
    numberAt data s.off = asInt (min longMax (digitsValue (text data s))) := by
  have positive : 0 < s.len := by
    have length := text_length data s
    have nonempty := List.length_pos_iff.mpr digits.1
    omega
  -- the digits lie in the memory, since there are zeros behind it
  have inside : s.off.toNat + s.len.toNat ≤ data.size := by
    by_contra past
    have member : data.byte (s.off.toNat + (s.len.toNat - 1)) ∈ text data s := by
      rw [text, Image.slice]
      exact List.mem_map_of_mem (List.mem_range.mpr (by omega))
    have isNumber := digits.2 _ member
    rw [data.zero_past_end _ (by omega)] at isNumber
    exact absurd isNumber (by decide)
  have whole : data.slice s.off.toNat (data.size - s.off.toNat) =
      text data s ++ data.slice (s.off.toNat + s.len.toNat) (data.size - s.off.toNat - s.len.toNat) := by
    rw [text, ← Image.slice_add]
    congr 1
    omega
  rw [numberAt, whole, strtol_digits digits]
  intro c head
  cases rest : data.size - s.off.toNat - s.len.toNat with
  | zero =>
    rw [rest] at head
    cases head
  | succ more =>
    rw [rest, Image.slice, List.range_succ_eq_map, List.map_cons] at head
    obtain rfl : data.byte (s.off.toNat + s.len.toNat + 0) = c := by simpa using head
    rwa [show s.off.toNat + s.len.toNat + 0 = (s.off + s.len).toNat by omega]

/-- The number of a decimal text survives the conversions exactly when it fits an `int`. -/
theorem narrowed_eq_iff {value : Nat} : asInt (min longMax value) = value ↔ value < 2 ^ 31 := by
  constructor
  · intro same
    have := asInt_lt (min longMax value)
    omega
  · intro small
    have bound : longMax = 0x7FFFFFFFFFFFFFFF := rfl
    rw [show min longMax (value : Int) = value by omega, asInt_nat small]

/-- An accepted request has a body of the announced number of bytes, and a `Content-Length` that
is no number is an error. -/
def LengthIsNumber (buf : Buffer) : Prop :=
  ∀ q cl, headersDone zeroed buf = some q → findHeader q contentLength buf = some cl →
    ((parseRequest zeroed buf).1 = .ok → Digits (text buf.data cl.val) ∧
      (parseRequest zeroed buf).2.body.len = digitsValue (text buf.data cl.val)) ∧
    (¬ Digits (text buf.data cl.val) → (parseRequest zeroed buf).1 = .err)

/-- The value is read as a number above `MAX_BODY`; or it is a number below 2 GiB; or it is a
number that wraps around to a length for which bytes are still missing. -/
def ProperLength (buf : Buffer) : Prop :=
  ∀ q cl, headersDone zeroed buf = some q → findHeader q contentLength buf = some cl →
    maxBody < numberAt buf.data cl.val.off ∨
    (Digits (text buf.data cl.val) ∧ (digitsValue (text buf.data cl.val) < 2 ^ 31 ∨
      (numberAt buf.data cl.val.off ≠ 0 ∧
        asInt (asInt buf.size - asInt q.readBytes) < numberAt buf.data cl.val.off)))

/-- Every header of a completed header block comes from a line. -/
theorem headersDone_fromLine (zero : ZeroPast buf) (done : headersDone zeroed buf = some q) :
    ∀ header ∈ q.headers, FromLine buf header := by
  obtain ⟨x, -, empty, scanned⟩ := headersDone_scan zero done
  have before : ∀ header ∈ x.headers, FromLine buf header := by
    intro header member
    rw [empty] at member
    cases member
  have after := scan_fromLine maxHeaders before
  rwa [scanned] at after

/-- The length of an accepted body is the announced number exactly when the value is a proper
length. -/
theorem lengthIsNumber_iff (zero : ZeroPast buf) : LengthIsNumber buf ↔ ProperLength buf := by
  apply forall₂_congr
  intro q cl
  apply forall₂_congr
  intro done found
  have call : parseRequest zeroed buf = startBody q buf := by
    rcases parseRequest_open_cases (.inl rfl) (.zeroed buf.size) with
      ⟨none, -⟩ | ⟨r, done', same, -⟩
    · rw [done] at none
      cases none
    · rw [done] at done'
      cases done'
      exact same
  have fromLine := headersDone_fromLine zero done cl (List.mem_of_find?_eq_some found)
  have fits : Digits (text buf.data cl.val) →
    (numberAt buf.data cl.val.off = digitsValue (text buf.data cl.val) ↔
      digitsValue (text buf.data cl.val) < 2 ^ 31) := by
    intro digits
    have positive : 0 < cl.val.len := by
      have length := text_length buf.data cl.val
      have nonempty := List.length_pos_iff.mpr digits.1
      omega
    obtain ⟨low, ends⟩ := fromLine.value_ends positive
    rw [numberAt_digits low digits ends]
    exact narrowed_eq_iff
  rw [call]
  by_cases large : numberAt buf.data cl.val.off > maxBody
  · have length : announced buf.data cl = none := if_pos large
    rw [startBody_rejected found length]
    exact iff_of_true ⟨(nomatch ·), fun _ => rfl⟩ (.inl large)
  · have length : announced buf.data cl = some (numberAt buf.data cl.val.off) := if_neg large
    rw [startBody_accepted found length]
    generalize numberAt buf.data cl.val.off = len at fits large
    -- the request is complete: its length has to be the number
    have complete : ∀ x : Request, x.body.len = len →
        ¬ (len ≠ 0 ∧ asInt (asInt buf.size - asInt q.readBytes) < len) →
        (((ReqCode.ok, x).1 = .ok → Digits (text buf.data cl.val) ∧
            (ReqCode.ok, x).2.body.len = digitsValue (text buf.data cl.val)) ∧
          (¬ Digits (text buf.data cl.val) → (ReqCode.ok, x).1 = .err) ↔
        maxBody < len ∨ (Digits (text buf.data cl.val) ∧ (digitsValue (text buf.data cl.val) < 2 ^ 31 ∨
          (len ≠ 0 ∧ asInt (asInt buf.size - asInt q.readBytes) < len)))) := by
      intro x same enough
      constructor
      · rintro ⟨number, -⟩
        obtain ⟨digits, equal⟩ := number rfl
        rw [same] at equal
        exact .inr ⟨digits, .inl ((fits digits).mp equal)⟩
      · rintro (wrong | ⟨digits, small | short⟩)
        · exact absurd wrong large
        · exact ⟨fun _ => ⟨digits, same.trans ((fits digits).mpr small)⟩,
            fun absent => absurd digits absent⟩
        · exact absurd short enough
    rcases parseBody_cases (q.withBody len) buf with
      ⟨empty, same⟩ | ⟨some, short, same⟩ | ⟨some, enough, same⟩
    · rw [same]
      exact complete _ rfl fun missing => missing.1 empty
    · rw [same]
      constructor
      · rintro ⟨-, number⟩
        by_cases digits : Digits (text buf.data cl.val)
        · exact .inr ⟨digits, .inr ⟨some, short⟩⟩
        · cases number digits
      · rintro (wrong | ⟨digits, -⟩)
        · exact absurd wrong large
        · exact ⟨(nomatch ·), fun absent => absurd digits absent⟩
    · rw [same]
      exact complete _ rfl fun missing => absurd missing.2 (Int.not_lt.mpr enough)

def twoBytes : Buffer := .holding (ascii "POST / HTTP/1.1\r\nContent-Length: 2\r\n\r\nhi") []

theorem lengthIsNumber_iff_two_bytes : LengthIsNumber twoBytes := by
  have facts : ((headersDone zeroed twoBytes).bind fun q => findHeader q contentLength twoBytes) =
      some ⟨⟨17, 14⟩, ⟨33, 1⟩⟩ ∧ text twoBytes.data ⟨33, 1⟩ = [50] := by decide +kernel
  have zero : ZeroPast twoBytes := holding_zeroPast _
  apply (lengthIsNumber_iff zero).mpr
  intro q cl done found
  have value : text twoBytes.data cl.val = [50] := by
    have same : ((headersDone zeroed twoBytes).bind fun q => findHeader q contentLength twoBytes) = some cl :=
      (congrArg (·.bind fun q => findHeader q contentLength twoBytes) done).trans found
    rw [facts.1] at same
    cases same
    exact facts.2
  rw [value]
  exact .inr ⟨⟨by decide, by decide +kernel⟩, .inl (by decide +kernel)⟩

/-- A length with text behind the digits. -/
def textLength : Buffer := .holding (ascii "POST / HTTP/1.1\r\nContent-Length: 2x\r\n\r\nhi") []

/-- The digits in front of the text are taken for the length. -/
theorem not_lengthIsNumber_text : ZeroPast textLength ∧ (parseRequest zeroed textLength).1 = .ok ∧
    (parseRequest zeroed textLength).2.body.len = 2 ∧ ¬ LengthIsNumber textLength := by
  have facts : (parseRequest zeroed textLength).1 = .ok ∧
    (parseRequest zeroed textLength).2.body.len = 2 ∧
      (headersDone zeroed textLength).isSome ∧
      ((headersDone zeroed textLength).bind fun q => findHeader q contentLength textLength) =
        some ⟨⟨17, 14⟩, ⟨33, 2⟩⟩ ∧
      text textLength.data ⟨33, 2⟩ = ascii "2x" := by decide +kernel
  obtain ⟨ok, two, done, found, value⟩ := facts
  refine ⟨holding_zeroPast _, ok, two, fun proper => ?_⟩
  obtain ⟨q, done⟩ := Option.isSome_iff_exists.mp done
  rw [done] at found
  obtain ⟨digits, -⟩ := (proper q _ done found).1 ok
  dsimp only at digits
  rw [value] at digits
  exact absurd (digits.2 120 (by decide +kernel)) (by decide)

end Cask.Http
