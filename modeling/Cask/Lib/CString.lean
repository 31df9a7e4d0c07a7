import Cask.Lib.ByteImage

/-! # C strings

A string with a terminator is its bytes in front of the terminator.  `strncmp` compares
memory, not strings: either side may go on without a terminator for as many bytes as are
compared.  `snprintf` stores as much of a text as leaves room for the terminator, and returns
the length of the whole text.
-/

namespace Storage

/-- The bytes of a string in front of its terminator. -/
structure CString where
  bytes : List UInt8
  no_nul : 0 ∉ bytes
  deriving DecidableEq

/-- The byte at `s + i`, the terminator included. -/
def CString.byte (s : CString) (i : Nat) : UInt8 := s.bytes.getD i 0

def strlen (s : CString) : Nat := s.bytes.length

/-- The comparison from the `i`-th bytes on, with `left` bytes to go. -/
def strncmpFrom (a b : Nat → UInt8) : Nat → Nat → Int
  | 0, _ => 0
  | left + 1, i =>
    if a i ≠ b i then (a i).toNat - (b i).toNat
    else if a i = 0 then 0
    else strncmpFrom a b left (i + 1)

/-- `strncmp(a, b, n)` on the memory at `a` and `b`. -/
def strncmp (a b : Nat → UInt8) (n : Nat) : Int := strncmpFrom a b n 0

theorem strncmpFrom_eq_zero {a b : Nat → UInt8} {left i : Nat}
    (proper : ∀ k, k < left → a (i + k) ≠ 0) :
    strncmpFrom a b left i = 0 ↔ ∀ k, k < left → a (i + k) = b (i + k) := by
  induction left generalizing i with
  | zero => simp [strncmpFrom]
  | succ left ih =>
    have here := proper 0 (by omega)
    have rest : ∀ k, k < left → a (i + 1 + k) ≠ 0 := by
      intro k bound
      have := proper (k + 1) (by omega)
      rwa [show i + (k + 1) = i + 1 + k by omega] at this
    rw [Nat.add_zero] at here
    rw [strncmpFrom]
    by_cases same : a i = b i
    · -- no terminator here, so the comparison goes on
      rw [if_neg (by simpa using same), if_neg here, ih rest]
      constructor
      · intro others k bound
        cases k with
        | zero => exact same
        | succ k =>
          have := others k (by omega)
          rwa [show i + 1 + k = i + (k + 1) by omega] at this
      · intro all k bound
        have := all (k + 1) (by omega)
        rwa [show i + (k + 1) = i + 1 + k by omega] at this
    · rw [if_pos same]
      have differ : ((a i).toNat : Int) - (b i).toNat ≠ 0 := by
        intro zero
        exact same (UInt8.toNat_inj.mp (by omega))
      refine iff_of_false differ fun all => ?_
      exact same (by simpa using all 0 (by omega))

/-- A string agrees with the memory over its whole length exactly when its bytes are there. -/
theorem strncmp_strlen {s : CString} {b : Nat → UInt8} :
    strncmp s.byte b (strlen s) = 0 ↔ ∀ i, i < strlen s → s.byte i = b i := by
  have proper : ∀ k, k < strlen s → s.byte (0 + k) ≠ 0 := by
    intro k bound zero
    rw [Nat.zero_add, CString.byte, List.getD_eq_getElem _ _ bound] at zero
    exact s.no_nul (zero ▸ List.getElem_mem bound)
  simpa [strncmp] using strncmpFrom_eq_zero proper

/-- `snprintf(dst, sizeof(dst), ...)` that prints `text`: the array afterwards, and the result. -/
def snprintf (dst text : List UInt8) : List UInt8 × Nat :=
  if dst.length = 0 then (dst, text.length)
  else
    let stored := text.take (dst.length - 1)
    (stored ++ 0 :: dst.drop (stored.length + 1), text.length)

/-- With room for the terminator, the first bytes of the array are the text. -/
theorem snprintf_fits {dst text : List UInt8} (room : text.length < dst.length) :
    (snprintf dst text).1.take (snprintf dst text).2 = text := by
  have whole : text.take (dst.length - 1) = text := List.take_of_length_le (by omega)
  rw [snprintf, if_neg (by omega)]
  simp [whole]

/-- Without it, the terminator takes the place of a byte of the text. -/
theorem snprintf_cut {dst text : List UInt8} (some : 0 < dst.length)
    (full : dst.length ≤ text.length) :
    (snprintf dst text).1.take (snprintf dst text).2 = text.take (dst.length - 1) ++ [0] := by
  have stored : (text.take (dst.length - 1)).length = dst.length - 1 := by simp; omega
  have nothing : dst.drop (dst.length - 1 + 1) = [] := List.drop_of_length_le (by omega)
  rw [snprintf, if_neg (by omega)]
  simp only [stored, nothing]
  exact List.take_of_length_le (by simp; omega)

end Storage
