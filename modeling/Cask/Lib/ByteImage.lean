import Mathlib.Data.List.GetD
import Mathlib.Tactic.NormNum
import Mathlib.Tactic.Ring

/-! # Byte images

A file seen as a finite byte image: a size and a byte for every offset, zero from the
size on.  `write` overwrites a range and extends the image when the range reaches past
the end, filling a gap with zeros, which is what a positioned write does to a regular
file.  Little-endian words are read with `readNat` and laid out with `leBytes`.

The lemmas are the usual frame rules: a read is not affected by a write to a disjoint
range, and a read of exactly the written range gives the written word back.
-/

namespace Storage

/-! ## Little-endian words -/

/-- The `width` low bytes of `value`, least significant first. -/
def leBytes : Nat → Nat → List UInt8
  | 0, _ => []
  | width + 1, value => UInt8.ofNat value :: leBytes width (value / 256)

@[simp] theorem leBytes_length (width value : Nat) : (leBytes width value).length = width := by
  induction width generalizing value with
  | zero => rfl
  | succ width ih => simp [leBytes, ih]

/-- The word read from a byte function at `off`. -/
def wordAt (byte : Nat → UInt8) (off : Nat) : Nat → Nat
  | 0 => 0
  | width + 1 => (byte off).toNat + 256 * wordAt byte (off + 1) width

/-- A word only depends on its own bytes. -/
theorem wordAt_congr {byte byte' : Nat → UInt8} {off width : Nat}
    (agree : ∀ i, off ≤ i → i < off + width → byte i = byte' i) :
    wordAt byte off width = wordAt byte' off width := by
  induction width generalizing off with
  | zero => rfl
  | succ width ih =>
    rw [wordAt, wordAt, agree off (le_refl _) (by omega),
      ih (fun i lower upper => agree i (by omega) (by omega))]

/-- Reading the bytes `leBytes` laid out gives the value, up to the width of the word. -/
theorem wordAt_leBytes {byte : Nat → UInt8} {off width value : Nat}
    (laid : ∀ i, i < width → byte (off + i) = (leBytes width value).getD i 0) :
    wordAt byte off width = value % 256 ^ width := by
  induction width generalizing off value with
  | zero => simp [wordAt, Nat.mod_one]
  | succ width ih =>
    have first : byte off = UInt8.ofNat value := by simpa [leBytes] using laid 0 (by omega)
    have rest : wordAt byte (off + 1) width = value / 256 % 256 ^ width := by
      apply ih
      intro i bound
      have next := laid (i + 1) (by omega)
      rw [show off + 1 + i = off + (i + 1) by omega, next]
      simp [leBytes]
    rw [wordAt, first, rest, pow_succ, mul_comm (256 ^ width) 256, Nat.mod_mul]
    simp [UInt8.toNat_ofNat']

theorem wordAt_lt (byte : Nat → UInt8) (off width : Nat) : wordAt byte off width < 256 ^ width := by
  induction width generalizing off with
  | zero => simp [wordAt]
  | succ width ih =>
    have low : (byte off).toNat < 256 := (byte off).toNat_lt
    have rest := ih (off + 1)
    rw [wordAt, pow_succ]
    omega

/-- The most significant byte bounds a word from below. -/
theorem le_wordAt_of_top {byte : Nat → UInt8} {off width : Nat} {top : Nat}
    (high : top ≤ (byte (off + width)).toNat) :
    top * 256 ^ width ≤ wordAt byte off (width + 1) := by
  induction width generalizing off with
  | zero => simpa [wordAt] using high
  | succ width ih =>
    have tail : top * 256 ^ width ≤ wordAt byte (off + 1) (width + 1) := by
      apply ih
      rwa [show off + 1 + width = off + (width + 1) by omega]
    rw [wordAt, pow_succ]
    calc top * (256 ^ width * 256) = 256 * (top * 256 ^ width) := by ring
      _ ≤ 256 * wordAt byte (off + 1) (width + 1) := Nat.mul_le_mul_left _ tail
      _ ≤ _ := Nat.le_add_left _ _

/-! ## Images -/

/-- A byte image: a size, and a byte at every offset that is zero from the size on. -/
structure Image where
  size : Nat
  byte : Nat → UInt8
  zero_past_end : ∀ i, size ≤ i → byte i = 0

theorem Image.ext {img img' : Image} (size : img.size = img'.size)
    (byte : ∀ i, img.byte i = img'.byte i) : img = img' := by
  obtain ⟨sz, b, _⟩ := img
  obtain ⟨sz', b', _⟩ := img'
  obtain rfl : sz = sz' := size
  obtain rfl : b = b' := funext byte
  rfl

/-- The image of an empty file. -/
def Image.empty : Image := ⟨0, fun _ => 0, fun _ _ => rfl⟩

/-- Cut the image to `size` bytes, or extend it to `size` bytes with zeros. -/
def Image.truncate (img : Image) (size : Nat) : Image where
  size := size
  byte i := if i < size then img.byte i else 0
  zero_past_end i past := if_neg (by omega)

/-- Overwrite the range starting at `off` with `bytes`. -/
def Image.write (img : Image) (off : Nat) (bytes : List UInt8) : Image where
  size := if bytes = [] then img.size else max img.size (off + bytes.length)
  byte i := if off ≤ i ∧ i < off + bytes.length then bytes.getD (i - off) 0 else img.byte i
  zero_past_end i past := by
    by_cases hb : bytes = []
    · subst hb
      simp only [↓reduceIte] at past
      rw [if_neg (by simp), img.zero_past_end i past]
    · rw [if_neg hb] at past
      rw [if_neg (by omega), img.zero_past_end i (by omega)]

/-- The little-endian word of `width` bytes at `off`. -/
def Image.readNat (img : Image) (off width : Nat) : Nat := wordAt img.byte off width

/-- The `len` bytes from `off` on. -/
def Image.slice (img : Image) (off len : Nat) : List UInt8 :=
  (List.range len).map fun i => img.byte (off + i)

variable {img img' : Image} {off off' width width' value : Nat} {bytes : List UInt8}

@[simp] theorem Image.slice_length (img : Image) (off len : Nat) :
    (img.slice off len).length = len := by
  simp [Image.slice]

theorem Image.slice_add (img : Image) (off len len' : Nat) :
    img.slice off (len + len') = img.slice off len ++ img.slice (off + len) len' := by
  simp [Image.slice, List.range_add, Nat.add_assoc]

theorem Image.write_nil (img : Image) (off : Nat) : img.write off [] = img := by
  apply Image.ext
  · simp [Image.write]
  · intro i
    exact if_neg (by simp)

theorem Image.write_size (nonempty : bytes ≠ []) :
    (img.write off bytes).size = max img.size (off + bytes.length) := if_neg nonempty

theorem Image.le_write_size : img.size ≤ (img.write off bytes).size := by
  by_cases hb : bytes = []
  · simp [hb, Image.write_nil]
  · rw [Image.write_size hb]
    exact le_max_left _ _

/-- A write inside the image does not change its size. -/
theorem Image.write_size_inside (inside : off + bytes.length ≤ img.size) :
    (img.write off bytes).size = img.size := by
  by_cases hb : bytes = []
  · simp [hb, Image.write_nil]
  · rw [Image.write_size hb]
    omega

theorem Image.write_byte_inside {i : Nat} (lower : off ≤ i) (upper : i < off + bytes.length) :
    (img.write off bytes).byte i = bytes.getD (i - off) 0 := if_pos ⟨lower, upper⟩

theorem Image.write_byte_outside {i : Nat} (outside : i < off ∨ off + bytes.length ≤ i) :
    (img.write off bytes).byte i = img.byte i := if_neg (by omega)

theorem Image.readNat_congr (agree : ∀ i, off ≤ i → i < off + width → img.byte i = img'.byte i) :
    img.readNat off width = img'.readNat off width := wordAt_congr agree

/-- Frame rule: a word outside the written range is unchanged. -/
theorem Image.readNat_write_disjoint
    (disjoint : off' + width ≤ off ∨ off + bytes.length ≤ off') :
    (img.write off bytes).readNat off' width = img.readNat off' width := by
  apply Image.readNat_congr
  intro i lower upper
  exact Image.write_byte_outside (by omega)

/-- The image holds `bytes` at `off`. -/
def Image.Holds (img : Image) (off : Nat) (bytes : List UInt8) : Prop :=
  ∀ k, k < bytes.length → img.byte (off + k) = bytes.getD k 0

theorem Image.holds_write : (img.write off bytes).Holds off bytes := by
  intro k bound
  rw [Image.write_byte_inside (by omega) (by omega), Nat.add_sub_cancel_left]

theorem Image.Holds.append {first second : List UInt8} (holds : img.Holds off (first ++ second)) :
    img.Holds off first ∧ img.Holds (off + first.length) second := by
  constructor
  · intro k bound
    rw [holds k (by rw [List.length_append]; omega), List.getD_append _ _ _ _ bound]
  · intro k bound
    have byte := holds (first.length + k) (by rw [List.length_append]; omega)
    rwa [List.getD_append_right _ _ _ _ (by omega), Nat.add_sub_cancel_left, ← Nat.add_assoc] at byte

theorem Image.Holds.congr (holds : img.Holds off bytes)
    (agree : ∀ i, off ≤ i → i < off + bytes.length → img'.byte i = img.byte i) :
    img'.Holds off bytes := by
  intro k bound
  rw [agree _ (by omega) (by omega), holds k bound]

theorem Image.Holds.readNat (holds : img.Holds off (leBytes width value)) :
    img.readNat off width = value % 256 ^ width :=
  wordAt_leBytes fun k bound => holds k (by rwa [leBytes_length])

theorem Image.Holds.slice (holds : img.Holds off bytes) : img.slice off bytes.length = bytes := by
  apply List.ext_getElem (by simp)
  intro k bound bound'
  simp only [Image.slice, List.getElem_map, List.getElem_range, holds k bound']
  exact (List.getElem_eq_getD _).symm

@[simp] theorem Image.readNat_write_same :
    (img.write off (leBytes width value)).readNat off width = value % 256 ^ width :=
  Image.holds_write.readNat

theorem Image.slice_getD {i len : Nat} (bound : i < len) :
    (img.slice off len).getD i 0 = img.byte (off + i) := by
  simp [Image.slice, List.getD, bound]

theorem Image.slice_congr {len : Nat}
    (agree : ∀ i, off ≤ i → i < off + len → img.byte i = img'.byte i) :
    img.slice off len = img'.slice off len := by
  apply List.map_congr_left
  intro i member
  exact agree _ (by omega) (by simp at member; omega)

end Storage
