import DataTree.Value.Basic
import Mathlib.Data.Rat.Defs
import Mathlib.Tactic.FieldSimp
import Mathlib.Tactic.Positivity

/-!
# DataTree.Proofs.Decimal.Number

The numbers that decimals denote.

`Decimal.toRat` is the coefficient divided by a power of ten (`toRat_eq`), and what the
comparisons of decimals compare are these numbers (`le_iff_toRat`, `same_iff_toRat`).
-/

namespace DataTree

namespace Decimal

variable {a b d : Decimal}

theorem toRat_eq (d : Decimal) : d.toRat = d.coefficient / 10 ^ d.scale := by
  simp [toRat, Rat.mkRat_eq_div, Nat.pow_eq]

/-- Without the point a decimal is a whole number. -/
theorem toRat_mul_pow (d : Decimal) : d.toRat * 10 ^ d.scale = d.coefficient := by
  rw [toRat_eq]
  field_simp

theorem abs_coefficient (d : Decimal) : |(d.coefficient : ℚ)| = d.magnitude := by
  rw [← Int.cast_abs, Int.abs_eq_natAbs, natAbs_coefficient, Int.cast_natCast]

theorem abs_toRat (d : Decimal) : |d.toRat| = d.magnitude / 10 ^ d.scale := by
  rw [toRat_eq, abs_div, abs_coefficient, abs_of_pos (by positivity)]

/-- Decimals are ordered as the numbers that they denote. -/
theorem le_iff_toRat : a.le b = true ↔ a.toRat ≤ b.toRat := by
  rw [le_iff, toRat_eq, toRat_eq, div_le_div_iff₀ (by positivity) (by positivity),
    ← Int.cast_le (R := ℚ)]
  simp [Nat.pow_eq]

theorem same_iff_toRat : a.same b = true ↔ a.toRat = b.toRat := by
  rw [same_iff, toRat_eq, toRat_eq, div_eq_div_iff (by positivity) (by positivity),
    ← Int.cast_inj (α := ℚ)]
  simp [Nat.pow_eq]

theorem toRat_ofInt64 (w : Int64) : (ofInt64 w).toRat = w.toInt := by
  rw [toRat_eq, coefficient_ofInt64]
  simp [ofInt64]

theorem toRat_ofUInt64 (w : UInt64) : (ofUInt64 w).toRat = w.toNat := by
  rw [toRat_eq, coefficient_ofUInt64]
  simp [ofUInt64]

end Decimal

end DataTree
