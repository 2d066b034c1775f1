import Mathlib.Data.Nat.Notation
import Mathlib.Algebra.Order.BigOperators.Group.List
import Mathlib.Algebra.Order.Ring.Nat
import Mathlib.Data.List.Forall2

/-!
# Saturating 64-bit arithmetic

Addition and subtraction of unsigned 64-bit integers that stop at the bounds of
the type instead of wrapping. Read as natural numbers they are the truncated sum
and the truncated difference (`toNat_satAdd`, `toNat_satSub`), so a fold of
saturating additions is one truncated sum (`toNat_foldl_satAdd`) and inherits
its monotonicity.
-/

namespace Procnet

namespace Lib

/-- The greatest 64-bit integer. -/
def u64Max : ℕ := 2 ^ 64 - 1

/-- Addition that stops at the greatest value. -/
def satAdd (a b : UInt64) : UInt64 := UInt64.ofNat (min u64Max (a.toNat + b.toNat))

/-- Subtraction that stops at zero. -/
def satSub (a b : UInt64) : UInt64 := UInt64.ofNat (a.toNat - b.toNat)

theorem toNat_le_u64Max (a : UInt64) : a.toNat ≤ u64Max :=
  Nat.le_pred_of_lt a.toNat_lt

@[simp] theorem toNat_satAdd (a b : UInt64) :
    (satAdd a b).toNat = min u64Max (a.toNat + b.toNat) := by
  refine UInt64.toNat_ofNat_of_lt' (lt_of_le_of_lt (min_le_left _ _) ?_)
  decide

@[simp] theorem toNat_satSub (a b : UInt64) : (satSub a b).toNat = a.toNat - b.toNat :=
  UInt64.toNat_ofNat_of_lt' (lt_of_le_of_lt (Nat.sub_le _ _) a.toNat_lt)

@[simp] theorem satAdd_zero (a : UInt64) : satAdd a 0 = a := by
  have ha := toNat_le_u64Max a
  refine UInt64.toNat_inj.mp ?_
  rw [toNat_satAdd, UInt64.toNat_zero]
  omega

/-- **A fold of saturating additions is one truncated sum.** -/
theorem toNat_foldl_satAdd (l : List UInt64) (a : UInt64) :
    (l.foldl satAdd a).toNat = min u64Max (a.toNat + (l.map UInt64.toNat).sum) := by
  induction l generalizing a with
  | nil => simpa using toNat_le_u64Max a
  | cons b l ih =>
    rw [List.foldl_cons, ih, toNat_satAdd, List.map_cons, List.sum_cons]
    omega

end Lib

end Procnet
