import Mathlib.Tactic.Common

/-! # Common definitions

The return codes that all parts of the server share.
-/

namespace Cask

/-- `OK` and `ERR` of `common.h`. -/
inductive Status where
  | ok
  | err
  deriving DecidableEq, Repr

end Cask
