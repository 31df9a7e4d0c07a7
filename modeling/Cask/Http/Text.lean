import Cask.Http.Scan

/-! # Texts of ranges

What the tokens of the parser read: `trim` cuts blanks and nothing else, the last token of
`split` reaches to the end of its line, and `strtol` on digits is their decimal value.
-/

namespace Cask.Http

open Storage

/-- The bytes of a range. -/
def text (data : Image) (s : Str) : List UInt8 := data.slice s.off.toNat s.len.toNat

/-- A non-empty decimal number. -/
def Digits (bytes : List UInt8) : Prop := bytes ≠ [] ∧ ∀ c ∈ bytes, isDigit c = true

variable {data : Image}

/-! ## `trim` -/

/-- `t` is `s` without the blanks at both ends. -/
structure Trimmed (data : Image) (s t : Str) : Prop where
  front : s.off ≤ t.off
  len : 0 ≤ t.len
  back : t.off + t.len ≤ s.off + s.len
  blankFront : ∀ i : Nat, s.off ≤ i → i < t.off → isBlank (data.byte i) = true
  blankBack : ∀ i : Nat, t.off + t.len ≤ i → i < s.off + s.len → isBlank (data.byte i) = true
  first : 0 < t.len → isBlank (data.byte t.off.toNat) = false
  last : 0 < t.len → isBlank (data.byte (t.off + t.len - 1).toNat) = false

section Trim

variable {left : Nat} {s : Str}

theorem trimFront_spec (data : Image) (count : left = s.len.toNat) (low : 0 ≤ s.off) (positive : 0 ≤ s.len) :
    let t := trimFront data left s
    s.off ≤ t.off ∧ 0 ≤ t.len ∧ t.off + t.len = s.off + s.len ∧
      (∀ i : Nat, s.off ≤ i → i < t.off → isBlank (data.byte i) = true) ∧
      (0 < t.len → isBlank (data.byte t.off.toNat) = false) := by
  induction left generalizing s with
  | zero =>
    rw [trimFront]
    exact ⟨Int.le_refl _, positive, rfl, fun i lower upper => absurd upper (by omega),
      fun more => absurd more (by omega)⟩
  | succ left ih =>
    rw [trimFront]
    split
    · next blank =>
      have rest :=
        ih (s := ⟨s.off + 1, s.len - 1⟩) (by dsimp only; omega) (by dsimp only; omega) (by dsimp only; omega)
      dsimp only at rest ⊢
      obtain ⟨front, len, back, blanks, first⟩ := rest
      refine ⟨by omega, len, by omega, fun i lower upper => ?_, first⟩
      -- the byte that was dropped, or one of the rest
      by_cases here : (i : Int) = s.off
      · rwa [← here, Int.toNat_natCast] at blank
      · exact blanks i (by omega) upper
    · next sharp =>
      dsimp only
      exact ⟨Int.le_refl _, positive, rfl, fun i lower upper => by omega,
        fun _ => Bool.eq_false_iff.mpr sharp⟩

theorem trimBack_spec (data : Image) (count : left = s.len.toNat) (low : 0 ≤ s.off) (positive : 0 ≤ s.len) :
    let t := trimBack data left s
    t.off = s.off ∧ 0 ≤ t.len ∧ t.len ≤ s.len ∧
      (∀ i : Nat, t.off + t.len ≤ i → i < s.off + s.len → isBlank (data.byte i) = true) ∧
      (0 < t.len → isBlank (data.byte (t.off + t.len - 1).toNat) = false) := by
  induction left generalizing s with
  | zero =>
    rw [trimBack]
    exact ⟨rfl, positive, Int.le_refl _, fun i lower upper => absurd upper (by omega),
      fun more => absurd more (by omega)⟩
  | succ left ih =>
    rw [trimBack]
    split
    · next blank =>
      have rest := ih (s := ⟨s.off, s.len - 1⟩) (by dsimp only; omega) low (by dsimp only; omega)
      dsimp only at rest ⊢
      obtain ⟨front, len, back, blanks, last⟩ := rest
      refine ⟨front, len, by omega, fun i lower upper => ?_, last⟩
      by_cases here : (i : Int) = s.off + s.len - 1
      · rwa [← here, Int.toNat_natCast] at blank
      · exact blanks i lower (by omega)
    · next sharp =>
      dsimp only
      exact ⟨rfl, positive, Int.le_refl _, fun i lower upper => by omega,
        fun _ => Bool.eq_false_iff.mpr sharp⟩

theorem trim_trimmed (low : 0 ≤ s.off) (positive : 0 ≤ s.len) : Trimmed data s (trim data s) := by
  obtain ⟨front, len, back, blanks, first⟩ := trimFront_spec data rfl low positive
  rw [trim]
  generalize trimFront data s.len.toNat s = t at front len back blanks first
  obtain ⟨same, len', shorter, blanks', last⟩ := trimBack_spec data rfl (Int.le_trans low front) len
  generalize trimBack data t.len.toNat t = u at same len' shorter blanks' last
  refine ⟨by omega, len', by omega, fun i lower upper => blanks i lower (by omega),
    fun i lower upper => ?_,
    fun more => ?_, last⟩
  · exact blanks' i lower (by omega)
  · rw [same]
    exact first (by omega)

end Trim

/-! ## `split` -/

section Split

variable {base len stop start left more : Nat} {origin : Int} {delim : UInt8} {s : Str}

/-- The last token reaches to the end. -/
theorem splitLoop_last (total : stop + left = len) :
    ∃ tokens : List Str, ∃ start' : Nat,
      splitLoop data base origin len delim left stop start more = tokens ++
      [⟨start' + origin, (len : Int) - start'⟩] := by
  induction left generalizing stop start more with
  | zero => exact ⟨[], start, splitLoop_ends (.inl rfl)⟩
  | succ left ih =>
    cases more with
    | zero => exact ⟨[], start, splitLoop_ends (.inr rfl)⟩
    | succ more =>
      rw [splitLoop]
      split
      · have next : stop + 1 + left = len := by omega
        obtain ⟨tokens, start', same⟩ := ih next
        exact ⟨_ :: tokens, start', by rw [same, List.cons_append]⟩
      · exact ih (by omega)

theorem split_end {num : Nat} {key val : Str}
    (shape : split data base len origin delim num = [key, val]) :
    val.off + val.len = origin + len := by
  have total : 0 + len = len := by omega
  obtain ⟨tokens, start', whole⟩ := splitLoop_last total
  rw [split] at shape
  rw [shape] at whole
  have same : val = ⟨start' + origin, (len : Int) - start'⟩ := by
    simpa using congrArg List.getLast? whole
  rw [same]
  dsimp only
  omega

/-- Bytes that are not delimiters are passed over. -/
theorem splitLoop_skip {count : Nat}
    (absent : ∀ i, i < count → data.byte (base + (stop + i)) ≠ delim) :
    splitLoop data base origin len delim (left + count) stop start (more + 1) =
      splitLoop data base origin len delim left (stop + count) start (more + 1) := by
  induction count generalizing stop with
  | zero => rfl
  | succ count ih =>
    have here : data.byte (base + stop) ≠ delim := absent 0 (by omega)
    rw [show left + (count + 1) = left + count + 1 by omega, splitLoop, if_neg here,
      ih fun i bound => ?_, show stop + 1 + count = stop + (count + 1) by omega]
    have := absent (i + 1) (by omega)
    rwa [show stop + (i + 1) = stop + 1 + i by omega] at this

theorem splitLoop_delim (here : data.byte (base + stop) = delim) :
    splitLoop data base origin len delim (left + 1) stop start (more + 1) =
      ⟨start + origin, (stop : Int) - start⟩ ::
        splitLoop data base origin len delim left (stop + 1) (stop + 1) more := by
  rw [splitLoop, if_pos here]

end Split

/-! ## `strtol` -/

theorem isDigit_not_space {c : UInt8} (digit : isDigit c = true) :
    isSpace c = false ∧ c ≠ 45 ∧ c ≠ 43 := by
  simp only [isDigit, Bool.and_eq_true, decide_eq_true_eq, UInt8.le_iff_toNat_le] at digit
  obtain ⟨low, high⟩ := digit
  have low : 48 ≤ c.toNat := low
  refine ⟨?_, ?_, ?_⟩
  · simp only [isSpace, Bool.or_eq_false_iff, Bool.and_eq_false_iff, decide_eq_false_iff_not,
      UInt8.le_iff_toNat_le]
    refine ⟨fun same => ?_, .inr fun small => ?_⟩
    · rw [same] at low
      exact absurd low (by decide)
    · have small : c.toNat ≤ 13 := small
      omega
  · rintro rfl
    exact absurd low (by decide)
  · rintro rfl
    exact absurd low (by decide)

/-- What the number scanners find at digits that end before another byte: no blank, no sign, and
all of the digits. -/
theorem scan_digits {digits rest : List UInt8} (isNumber : Digits digits)
    (ends : ∀ c ∈ rest.head?, isDigit c = false) :
    ∃ d more, (digits ++ rest).dropWhile isSpace = d :: more ∧ d ≠ 45 ∧ d ≠ 43 ∧
      (d :: more).takeWhile isDigit = digits := by
  obtain ⟨nonempty, all⟩ := isNumber
  have taken : (digits ++ rest).takeWhile isDigit = digits := by
    rw [List.takeWhile_append_of_pos all]
    cases rest with
    | nil => simp
    | cons c rest => simp [ends c rfl]
  cases digits with
  | nil => exact absurd rfl nonempty
  | cons d digits =>
    obtain ⟨notSpace, notMinus, notPlus⟩ := isDigit_not_space (all d (by simp))
    refine ⟨d, digits ++ rest, ?_, notMinus, notPlus, taken⟩
    rw [List.cons_append, List.dropWhile_cons, notSpace]
    rfl

/-- Digits that end before another byte are read as their value, up to the range of `long`. -/
theorem strtol_digits {digits rest : List UInt8} (isNumber : Digits digits)
    (ends : ∀ c ∈ rest.head?, isDigit c = false) :
    strtol (digits ++ rest) = min longMax (digitsValue digits) := by
  obtain ⟨d, more, kept, notMinus, notPlus, taken⟩ := scan_digits isNumber ends
  rw [strtol, kept]
  split
  · next same => exact absurd (List.cons.inj same).1 notMinus
  · next same => exact absurd (List.cons.inj same).1 notPlus
  · rw [taken]

end Cask.Http
