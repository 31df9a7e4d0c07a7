import Cask.Lib.ByteImage

/-! # Positioned reads and writes

`pread` and `pwrite` on a byte image, with the outcome of each call chosen by the
environment: it may fail, transfer everything it can, or stop after fewer bytes.  An
offset or an end of range that does not fit the signed file offset type makes the call
fail, whatever the environment would have chosen.
-/

namespace Storage

/-- The environment's choice for one call that transfers data. -/
inductive Outcome where
  | fails
  | full
  | short (count : Nat)
  deriving DecidableEq, Repr

/-- How many of `len` bytes are transferred; `none` is the return value -1. -/
def Outcome.transferred (outcome : Outcome) (len : Nat) : Option Nat :=
  match outcome with
  | .fails => none
  | .full => some len
  | .short count => some (min count len)

/-- The first value that the signed 64-bit file offset cannot hold. -/
def offLimit : Nat := 2 ^ 63

/-- The bytes read by `pread(fd, buf, len, off)`, or `none` for -1. -/
def pread (img : Image) (off len : Nat) (outcome : Outcome) : Option (List UInt8) :=
  if offLimit ≤ off then none
  else (outcome.transferred (min len (img.size - off))).map (img.slice off)

/-- The count returned by a `pwrite` of `len` bytes at `off`; it does not depend on the file. -/
def Outcome.written (outcome : Outcome) (off len : Nat) : Option Nat :=
  if offLimit ≤ off + len then none else outcome.transferred len

/-- The count returned by `pwrite(fd, bytes, len, off)` and the image after it. -/
def pwrite (img : Image) (off : Nat) (bytes : List UInt8) (outcome : Outcome) :
    Option Nat × Image :=
  match outcome.written off bytes.length with
  | none => (none, img)
  | some count => (some count, img.write off (bytes.take count))

variable {img : Image} {off len : Nat} {bytes : List UInt8} {outcome : Outcome}

theorem Outcome.transferred_le {count : Nat} (moved : outcome.transferred len = some count) :
    count ≤ len := by
  cases outcome with
  | fails => simp [transferred] at moved
  | full => simp [transferred] at moved; omega
  | short k => simp [transferred] at moved; omega

/-- A read of exactly the requested length needs a proper offset and the bytes to be there. -/
theorem pread_full {data : List UInt8} (read : pread img off len outcome = some data)
    (complete : data.length = len) (positive : 0 < len) :
    off < offLimit ∧ off + len ≤ img.size ∧ data = img.slice off len := by
  unfold pread at read
  split at read
  · cases read
  · next proper =>
    obtain ⟨count, moved, rfl⟩ := Option.map_eq_some_iff.mp read
    have bound := Outcome.transferred_le moved
    rw [Image.slice_length] at complete
    subst complete
    exact ⟨by omega, by omega, rfl⟩

theorem pread_of_full (proper : off < offLimit) (present : off + len ≤ img.size) :
    pread img off len .full = some (img.slice off len) := by
  rw [pread, if_neg (by omega)]
  simp only [Outcome.transferred, Option.map_some]
  rw [Nat.min_eq_left (by omega)]

theorem Outcome.written_le {count : Nat} (moved : outcome.written off len = some count) :
    count ≤ len ∧ off + len < offLimit := by
  unfold written at moved
  split at moved
  · cases moved
  · exact ⟨transferred_le moved, by omega⟩

theorem Outcome.written_full (fits : off + len < offLimit) :
    Outcome.written .full off len = some len :=
  if_neg (by omega)

/-- A call that is never cut short. -/
def Outcome.Crisp (outcome : Outcome) : Prop := outcome = .fails ∨ outcome = .full

/-- A crisp write moves everything or nothing. -/
theorem Outcome.Crisp.written_eq {count : Nat} (crisp : outcome.Crisp)
    (moved : outcome.written off len = some count) : count = len := by
  unfold written at moved
  split at moved
  · cases moved
  · cases crisp with
    | inl failed => simp [failed, transferred] at moved
    | inr full => simpa [full, transferred] using moved.symm

end Storage
