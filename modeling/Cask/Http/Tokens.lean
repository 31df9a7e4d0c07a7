import Cask.Http.Model

/-! # Tokens

What the tokenising loops of the parser return and which bytes they depend on.  Every range
they cut lies in the range they were given, and their result only depends on the bytes of
that range.
-/

namespace Cask.Http

open Storage

/-- The images have the same bytes below `n`. -/
def AgreeBelow (n : Nat) (data data' : Image) : Prop := ∀ i, i < n → data.byte i = data'.byte i

/-- The range lies between two offsets. -/
def Str.Within (s : Str) (lower upper : Int) : Prop :=
  lower ≤ s.off ∧ 0 ≤ s.len ∧ s.off + s.len ≤ upper

variable {data data' : Image} {n len off : Nat} {c : UInt8}

theorem AgreeBelow.symm (agree : AgreeBelow n data data') : AgreeBelow n data' data :=
  fun i bound => (agree i bound).symm

theorem AgreeBelow.mono {m : Nat} (agree : AgreeBelow n data data') (less : m ≤ n) :
    AgreeBelow m data data' :=
  fun i bound => agree i (by omega)

theorem Str.Within.mono {s : Str} {lower lower' upper upper' : Int} (within : s.Within lower upper)
    (down : lower' ≤ lower) (up : upper ≤ upper') : s.Within lower' upper' := by
  obtain ⟨low, pos, high⟩ := within
  exact ⟨by omega, pos, by omega⟩

/-! ## Conversions -/

theorem asInt_eq_bmod (x : Int) : asInt x = x.bmod 0x100000000 := by
  unfold asInt
  split
  · symm
    apply Int.bmod_eq_of_le
    · omega
    · omega
  · rfl

theorem asInt_of_range {x : Int} (low : - 2 ^ 31 ≤ x) (high : x < 2 ^ 31) : asInt x = x := by
  rw [asInt_eq_bmod]
  apply Int.bmod_eq_of_le
  · omega
  · omega

theorem asInt_nat (small : n < 2 ^ 31) : asInt n = n := asInt_of_range (by omega) (by omega)

theorem asInt_lt (x : Int) : asInt x < 2 ^ 31 := by
  have upper := Int.bmod_lt (x := x) (m := 0x100000000) (by omega)
  rw [asInt_eq_bmod]
  omega

/-- A position of 2 GiB or more is not kept. -/
theorem asInt_eq_nat : asInt n = n ↔ n < 2 ^ 31 := by
  constructor
  · intro same
    have := asInt_lt n
    omega
  · exact asInt_nat

theorem asInt_nat_le (n : Nat) : asInt n ≤ n := by
  by_cases small : n < 2 ^ 31
  · rw [asInt_nat small]
  · have := asInt_lt n
    omega

/-! ## `span` -/

theorem spanLoop_none {left pos i : Nat} :
    spanLoop data c left pos i = none ↔ ∀ j, j < left → data.byte (pos + j) ≠ c := by
  induction left generalizing pos i with
  | zero => simp [spanLoop]
  | succ left ih =>
    rw [spanLoop]
    split
    · next found =>
      refine iff_of_false (by simp) fun absent => ?_
      exact absent 0 (by omega) found
    · next differ =>
      rw [ih]
      constructor
      · intro absent j bound
        cases j with
        | zero => exact differ
        | succ j =>
          have := absent j (by omega)
          rwa [show pos + 1 + j = pos + (j + 1) by omega] at this
      · intro absent j bound
        have := absent (j + 1) (by omega)
        rwa [show pos + (j + 1) = pos + 1 + j by omega] at this

theorem spanLoop_some {left pos i k : Nat} :
    spanLoop data c left pos i = some k ↔
      ∃ j, j < left ∧ k = i + j + 1 ∧ data.byte (pos + j) = c ∧ ∀ j', j' < j →
      data.byte (pos + j') ≠ c := by
  induction left generalizing pos i with
  | zero => simp [spanLoop]
  | succ left ih =>
    rw [spanLoop]
    split
    · next found =>
      constructor
      · intro same
        cases same
        exact ⟨0, by omega, rfl, found, fun j' bound => by omega⟩
      · rintro ⟨j, bound, rfl, _, absent⟩
        cases j with
        | zero => rfl
        | succ j => exact absurd found (absent 0 (by omega))
    · next differ =>
      rw [ih]
      constructor
      · rintro ⟨j, bound, rfl, found, absent⟩
        refine ⟨j + 1, by omega, by omega, by rwa [show pos + (j + 1) = pos + 1 + j by omega],
          fun j' bound' => ?_⟩
        cases j' with
        | zero => exact differ
        | succ j' =>
          have := absent j' (by omega)
          rwa [show pos + 1 + j' = pos + (j' + 1) by omega] at this
      · rintro ⟨j, bound, rfl, found, absent⟩
        cases j with
        | zero => exact absurd found differ
        | succ j =>
          refine ⟨j, by omega, by omega, by rwa [show pos + 1 + j = pos + (j + 1) by omega],
            fun j' bound' => ?_⟩
          have := absent (j' + 1) (by omega)
          rwa [show pos + (j' + 1) = pos + 1 + j' by omega] at this

theorem span_none : span data c len off = none ↔ ∀ i, off ≤ i → i < len → data.byte i ≠ c := by
  rw [span, spanLoop_none]
  constructor
  · intro absent i lower upper
    have := absent (i - off) (by omega)
    rwa [show off + (i - off) = i by omega] at this
  · intro absent j bound
    exact absent (off + j) (by omega) (by omega)

/-- `span` finds the first occurrence; the result counts the bytes up to and including it. -/
theorem span_some {k : Nat} :
    span data c len off = some k ↔
    0 < k ∧ off + k ≤ len ∧ data.byte (off + k - 1) = c ∧ ∀ i, off ≤ i → i < off + k - 1 →
      data.byte i ≠ c := by
  rw [span, spanLoop_some]
  constructor
  · rintro ⟨j, bound, rfl, found, absent⟩
    refine ⟨by omega, by omega, by rwa [show off + (0 + j + 1) - 1 = off + j by omega],
      fun i lower upper => ?_⟩
    have := absent (i - off) (by omega)
    rwa [show off + (i - off) = i by omega] at this
  · rintro ⟨pos, bound, found, absent⟩
    refine ⟨k - 1, by omega, by omega, by rwa [show off + (k - 1) = off + k - 1 by omega],
      fun j bound' => ?_⟩
    exact absent (off + j) (by omega) (by omega)

/-- A line that is complete stays the same when more bytes arrive. -/
theorem span_mono {len' k : Nat} (agree : AgreeBelow len data data') (more : len ≤ len')
    (found : span data c len off = some k) : span data' c len' off = some k := by
  rw [span_some] at found ⊢
  obtain ⟨pos, bound, here, absent⟩ := found
  refine ⟨pos, by omega, by rw [← agree _ (by omega)]; exact here, fun i lower upper => ?_⟩
  rw [← agree i (by omega)]
  exact absent i lower upper

theorem span_congr (agree : AgreeBelow len data data') :
    span data c len off = span data' c len off := by
  cases found : span data c len off with
  | some k => exact (span_mono agree (Nat.le_refl _) found).symm
  | none =>
    rw [span_none] at found
    symm
    rw [span_none]
    intro i lower upper
    rw [← agree i upper]
    exact found i lower upper

/-! ## `split` -/

section Split

variable {base left stop start more : Nat} {origin : Int} {delim : UInt8}

/-- The last token takes the rest of the line. -/
theorem splitLoop_ends (ends : left = 0 ∨ more = 0) :
    splitLoop data base origin len delim left stop start more =
      [⟨start + origin, (len : Int) - start⟩] := by
  obtain rfl | rfl := ends
  · simp [splitLoop]
  · cases left <;> simp [splitLoop]

theorem splitLoop_within (order : start ≤ stop) (total : stop + left = len) {s : Str}
    (member : s ∈ splitLoop data base origin len delim left stop start more) :
    s.Within origin (origin + len) := by
  induction left generalizing stop start more with
  | zero =>
    obtain rfl := List.mem_singleton.mp (splitLoop_ends (.inl rfl) ▸ member)
    refine ⟨?_, ?_, ?_⟩ <;> dsimp only <;> omega
  | succ left ih =>
    cases more with
    | zero =>
      obtain rfl := List.mem_singleton.mp (splitLoop_ends (.inr rfl) ▸ member)
      refine ⟨?_, ?_, ?_⟩ <;> dsimp only <;> omega
    | succ more =>
      rw [splitLoop] at member
      split at member
      · rcases List.mem_cons.mp member with rfl | later
        · refine ⟨?_, ?_, ?_⟩ <;> dsimp only <;> omega
        · exact ih (Nat.le_refl _) (by omega) later
      · exact ih (by omega) (by omega) member

theorem split_within {num : Nat} {s : Str} (member : s ∈ split data base len origin delim num) :
    s.Within origin (origin + len) := splitLoop_within (Nat.le_refl _) (by omega) member

/-- Behind every token but the last there is a delimiter. -/
theorem splitLoop_delim_behind {s : Str} (order : start ≤ stop)
    (member : s ∈ (splitLoop data base origin len delim left stop start more).dropLast) :
    data.byte (base + (s.off - origin) + s.len).toNat = delim := by
  induction left generalizing stop start more with
  | zero =>
    rw [splitLoop_ends (.inl rfl)] at member
    cases member
  | succ left ih =>
    cases more with
    | zero =>
      rw [splitLoop_ends (.inr rfl)] at member
      cases member
    | succ more =>
      rw [splitLoop] at member
      split at member
      · next found =>
        cases rest : splitLoop data base origin len delim left (stop + 1) (stop + 1) more with
        | nil =>
          rw [rest] at member
          cases member
        | cons next others =>
          rw [rest, List.dropLast_cons_cons] at member
          obtain rfl | later := List.mem_cons.mp member
          · rw [← found]
            congr 1
            dsimp only
            omega
          · exact ih (Nat.le_refl _) (by rwa [rest])
      · exact ih (by omega) member

theorem splitLoop_congr (total : stop + left = len) (agree : AgreeBelow (base + len) data data') :
    splitLoop data base origin len delim left stop start more =
      splitLoop data' base origin len delim left stop start more := by
  induction left generalizing stop start more with
  | zero => simp [splitLoop]
  | succ left ih =>
    cases more with
    | zero => simp [splitLoop]
    | succ more =>
      rw [splitLoop, splitLoop, agree (base + stop) (by omega), ih (by omega), ih (by omega)]

theorem split_congr {num : Nat} (agree : AgreeBelow (base + len) data data') :
    split data base len origin delim num = split data' base len origin delim num :=
  splitLoop_congr (by omega) agree

end Split

/-! ## `trim` -/

section Trim

variable {left : Nat} {s : Str} {lower upper : Int}

theorem trimFront_within (count : left ≤ s.len.toNat) (within : s.Within lower upper) :
    (trimFront data left s).Within lower upper := by
  induction left generalizing s with
  | zero => exact within
  | succ left ih =>
    obtain ⟨low, pos, high⟩ := within
    rw [trimFront]
    split
    · exact ih (by dsimp only; omega) ⟨by dsimp only; omega, by dsimp only; omega, by dsimp only; omega⟩
    · exact ⟨low, pos, high⟩

theorem trimBack_within (count : left ≤ s.len.toNat) (within : s.Within lower upper) :
    (trimBack data left s).Within lower upper := by
  induction left generalizing s with
  | zero => exact within
  | succ left ih =>
    obtain ⟨low, pos, high⟩ := within
    rw [trimBack]
    split
    · exact ih (by dsimp only; omega) ⟨low, by dsimp only; omega, by dsimp only; omega⟩
    · exact ⟨low, pos, high⟩

theorem trim_within (within : s.Within lower upper) : (trim data s).Within lower upper :=
  trimBack_within (Nat.le_refl _) (trimFront_within (Nat.le_refl _) within)

theorem trimFront_congr (count : left ≤ s.len.toNat) (within : s.Within 0 n)
    (agree : AgreeBelow n data data') : trimFront data left s = trimFront data' left s := by
  induction left generalizing s with
  | zero => rfl
  | succ left ih =>
    obtain ⟨low, pos, high⟩ := within
    rw [trimFront, trimFront, agree s.off.toNat (by omega)]
    split
    · exact ih (by dsimp only; omega) ⟨by dsimp only; omega, by dsimp only; omega, by dsimp only; omega⟩
    · rfl

theorem trimBack_congr (count : left ≤ s.len.toNat) (within : s.Within 0 n)
    (agree : AgreeBelow n data data') : trimBack data left s = trimBack data' left s := by
  induction left generalizing s with
  | zero => rfl
  | succ left ih =>
    obtain ⟨low, pos, high⟩ := within
    rw [trimBack, trimBack, agree (s.off + s.len - 1).toNat (by omega)]
    split
    · exact ih (by dsimp only; omega) ⟨low, by dsimp only; omega, by dsimp only; omega⟩
    · rfl

theorem trim_congr (within : s.Within 0 n) (agree : AgreeBelow n data data') :
    trim data s = trim data' s := by
  have front := trimFront_congr (Nat.le_refl _) within agree
  have inside : (trimFront data s.len.toNat s).Within 0 n := trimFront_within (Nat.le_refl _) within
  rw [trim, trim, ← front]
  exact trimBack_congr (Nat.le_refl _) inside agree

end Trim

/-! ## Names -/

theorem slice_agree (agree : AgreeBelow n data data') (bound : off + len ≤ n) :
    data.slice off len = data'.slice off len := by
  apply List.map_congr_left
  intro i member
  rw [List.mem_range] at member
  exact agree (off + i) (by omega)

theorem isNamed_congr {s : Str} {name : List UInt8} (within : s.Within 0 n)
    (agree : AgreeBelow n data data') : isNamed data s name = isNamed data' s name := by
  obtain ⟨low, pos, high⟩ := within
  by_cases same : s.len = name.length
  · rw [isNamed, isNamed, slice_agree agree (by omega)]
  · simp [isNamed, same]

end Cask.Http
