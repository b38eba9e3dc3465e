import DataTree.Proofs.Decimal.Number
import Mathlib.Algebra.Order.Round
import Mathlib.Data.Rat.Floor
import Mathlib.Tactic.Linarith
import Mathlib.Tactic.Ring

/-!
# DataTree.Proofs.Decimal.Rounding

Rounding as arithmetic: what rounding half to even means for a number, whatever its
digits, and that decimals are rounded so.

`nearestEven` is the whole number next to a given one, and `roundEven digits` the number
with so many fractional digits next to it; in the middle between two the even one is
taken.  That describes the result completely (`nearestEven_eq_iff`), whence rounding
respects signs and order.  Cutting a coefficient back to fewer digits, `roundTo`, rounds
the number that a decimal denotes in this sense (`toRat_roundTo`).
-/

namespace DataTree.Decimal

/-! ## Whole numbers nearby -/

/-- The whole number nearest to a number; of two that are equally near, the even one. -/
def nearestEven (x : ℚ) : ℤ :=
  if Int.fract x < 1 / 2 ∨ Int.fract x = 1 / 2 ∧ Even ⌊x⌋ then ⌊x⌋ else ⌊x⌋ + 1

variable {x y : ℚ} {k l : ℤ} {n digits : ℕ}

/-- Of two whole numbers at most half away from a number, not both are even. -/
private theorem eq_of_near (hk : |x - k| < 1 / 2 ∨ |x - k| = 1 / 2 ∧ Even k)
    (hl : |x - l| < 1 / 2 ∨ |x - l| = 1 / 2 ∧ Even l) : k = l := by
  have hdist : |(k : ℚ) - l| ≤ |x - k| + |x - l| := by
    rw [abs_sub_comm x k]
    exact abs_sub_le (k : ℚ) x l
  have hle : |k - l| ≤ 1 := by
    have : |(k : ℚ) - l| ≤ 1 := by
      rcases hk with hk | ⟨hk, -⟩ <;> rcases hl with hl | ⟨hl, -⟩ <;> linarith
    exact_mod_cast this
  by_contra hne
  have hone : |k - l| = 1 := le_antisymm hle (Int.one_le_abs (sub_ne_zero.2 hne))
  have hone' : |(k : ℚ) - l| = 1 := by exact_mod_cast hone
  obtain ⟨hk, hek⟩ := hk.resolve_left fun hk => by
    rcases hl with hl | ⟨hl, -⟩ <;> linarith
  obtain ⟨hl, hel⟩ := hl.resolve_left fun hl => by linarith
  have heven : Even (k - l) := hek.sub hel
  rw [← even_abs, hone] at heven
  exact absurd heven (by decide)

/-- **Rounding half to even**: the result is less than half away, or half away and even. -/
theorem nearestEven_eq_iff : nearestEven x = k ↔ |x - k| < 1 / 2 ∨ |x - k| = 1 / 2 ∧ Even k := by
  have hself : |x - nearestEven x| < 1 / 2 ∨ |x - nearestEven x| = 1 / 2 ∧
      Even (nearestEven x) := by
    have hlow := Int.fract_nonneg x
    have hhigh := Int.fract_lt_one x
    have hdown : x - ⌊x⌋ = Int.fract x := Int.self_sub_floor x
    have hup : x - ((⌊x⌋ + 1 : ℤ) : ℚ) = -(1 - Int.fract x) := by
      push_cast
      linarith
    unfold nearestEven
    split
    · next h => rwa [hdown, abs_of_nonneg hlow]
    · next h =>
      obtain ⟨hge, hodd⟩ := not_or.1 h
      rw [hup, abs_neg, abs_of_nonneg (by linarith)]
      rcases (not_lt.1 hge).lt_or_eq with hgt | heq
      · exact .inl (by linarith)
      · have hodd' : ¬ Even ⌊x⌋ := fun he => hodd ⟨heq.symm, he⟩
        exact .inr ⟨by linarith, Int.even_add_one.2 hodd'⟩
  constructor
  · rintro rfl
    exact hself
  · exact fun hk => eq_of_near hself hk

@[simp] theorem nearestEven_intCast (k : ℤ) : nearestEven k = k :=
  nearestEven_eq_iff.2 (.inl (by simp))

theorem nearestEven_neg (x : ℚ) : nearestEven (-x) = -nearestEven x := by
  have hself := nearestEven_eq_iff.1 (rfl : nearestEven x = _)
  have habs : |(-x) - ((-nearestEven x : ℤ) : ℚ)| = |x - nearestEven x| := by
    push_cast
    rw [← abs_neg]
    congr 1
    ring
  rw [nearestEven_eq_iff, habs, even_neg]
  exact hself

theorem nearestEven_mono (h : x ≤ y) : nearestEven x ≤ nearestEven y := by
  by_contra hlt
  have hx := nearestEven_eq_iff.1 (rfl : nearestEven x = _)
  have hy := nearestEven_eq_iff.1 (rfl : nearestEven y = _)
  have hstep : ((nearestEven y : ℤ) : ℚ) + 1 ≤ nearestEven x := by exact_mod_cast not_le.1 hlt
  -- both are half a unit away from the same number, so they are the same
  have hxle : |x - nearestEven x| ≤ 1 / 2 := hx.elim le_of_lt fun h => h.1.le
  have hyle : |y - nearestEven y| ≤ 1 / 2 := hy.elim le_of_lt fun h => h.1.le
  have hxl := (abs_le.1 hxle).1
  have hyl := (abs_le.1 hyle).2
  have hxy : x = y := by linarith
  rw [hxy] at hlt
  exact hlt le_rfl

/-- Looking at the remainder is rounding the quotient. -/
theorem nearestEven_natDiv {k : ℕ} (n : ℕ) (hk : 0 < k) :
    nearestEven ((n : ℚ) / k) = divHalfEven n k := by
  have hpos : (0 : ℚ) < k := by exact_mod_cast hk
  have hlt : Int.fract ((n : ℚ) / k) < 1 / 2 ↔ 2 * (n % k) < k := by
    rw [Int.fract_div_natCast_eq_div_natCast_mod, div_lt_div_iff₀ hpos two_pos]
    norm_cast
    rw [mul_comm, one_mul]
  have heq : Int.fract ((n : ℚ) / k) = 1 / 2 ↔ 2 * (n % k) = k := by
    rw [Int.fract_div_natCast_eq_div_natCast_mod, div_eq_div_iff hpos.ne' two_ne_zero]
    norm_cast
    rw [mul_comm, one_mul]
  have heven : Even (((n : ℤ) / k)) ↔ n / k % 2 = 0 := by
    rw [← Int.natCast_div, Int.even_coe_nat, Nat.even_iff]
  simp only [nearestEven, Rat.floor_natCast_div_natCast, hlt, heq, heven, divHalfEven]
  split <;> simp

theorem nearestEven_intDiv {k : ℕ} (c : ℤ) (hk : 0 < k) :
    nearestEven ((c : ℚ) / k) = c.sign * divHalfEven c.natAbs k := by
  have habs : nearestEven (((c.natAbs : ℕ) : ℚ) / k) = divHalfEven c.natAbs k :=
    nearestEven_natDiv _ hk
  rcases lt_trichotomy c 0 with hneg | rfl | hpos
  · have hc : (c : ℚ) = -((c.natAbs : ℕ) : ℚ) := by
      rw [Nat.cast_natAbs, abs_of_neg hneg, Int.cast_neg, neg_neg]
    rw [hc, neg_div, nearestEven_neg, habs, Int.sign_eq_neg_one_of_neg hneg, neg_one_mul]
  · simpa using nearestEven_intCast 0
  · have hc : (c : ℚ) = ((c.natAbs : ℕ) : ℚ) := by rw [Nat.cast_natAbs, abs_of_pos hpos]
    rw [hc, habs, Int.sign_eq_one_of_pos hpos, one_mul]

/-! ## Fractional digits -/

/-- The number with so many fractional digits that is nearest to a number; of two that are
equally near, the one whose last digit is even. -/
def roundEven (digits : ℕ) (x : ℚ) : ℚ := nearestEven (x * 10 ^ digits) / 10 ^ digits

theorem roundEven_mono (digits : ℕ) (h : x ≤ y) : roundEven digits x ≤ roundEven digits y := by
  have hscaled : x * 10 ^ digits ≤ y * 10 ^ digits := by gcongr
  have hle : ((nearestEven (x * 10 ^ digits) : ℤ) : ℚ) ≤ nearestEven (y * 10 ^ digits) := by
    exact_mod_cast nearestEven_mono hscaled
  unfold roundEven
  gcongr

/-- A number that has no more digits than asked for stays as it is. -/
theorem roundEven_of_int (h : x * 10 ^ digits = k) : roundEven digits x = x := by
  rw [roundEven, h, nearestEven_intCast, ← h]
  field_simp

variable {d : Decimal}

/-- The digits behind the point of a short decimal are digits of the number. -/
theorem toRat_mul_pow_of_le (h : d.scale ≤ digits) :
    d.toRat * 10 ^ digits = ((d.coefficient * 10 ^ (digits - d.scale) : ℤ) : ℚ) := by
  rw [← Nat.add_sub_cancel' h, pow_add, ← mul_assoc, toRat_mul_pow, Nat.add_sub_cancel_left]
  push_cast
  ring

/-- Cutting digits off rounds the number half to even. -/
theorem toRat_roundTo (digits : ℕ) (d : Decimal) :
    (d.roundTo digits).toRat = roundEven digits d.toRat := by
  by_cases h : d.scale ≤ digits
  · rw [roundTo_of_le h, roundEven_of_int (toRat_mul_pow_of_le h)]
  · have hlt := Nat.lt_of_not_le h
    have hpow : d.toRat * 10 ^ digits = (d.coefficient : ℚ) /
        ((10 ^ (d.scale - digits) : ℕ) : ℚ) := by
      rw [toRat_eq, ← Nat.add_sub_cancel' hlt.le, pow_add, Nat.add_sub_cancel_left]
      push_cast
      field_simp
    have hscale : (d.roundTo digits).scale = digits := by simp [roundTo, h]
    rw [toRat_eq, hscale, coefficient_roundTo hlt, roundEven, hpow,
      nearestEven_intDiv _ (by positivity)]
    simp [Nat.pow_eq]

end DataTree.Decimal
