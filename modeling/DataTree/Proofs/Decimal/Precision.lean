import DataTree.Leaf.Precision
import DataTree.Proofs.Decimal.Rounding

/-!
# DataTree.Proofs.Decimal.Precision

A precision rounds numbers to its digits, exactly.

Rounding and rescaling come after one another, and either may end short of the digits
asked for: rounding leaves short decimals as they are, and rescaling stops where the
coefficient has no room for another zero.  Together they give the rounded number, with
exactly the digits of the precision, whenever it can be written with them at all
(`exists_quantize?_iff`, `toRat_of_quantize?`).
-/

namespace DataTree

/-! ## The number that a raw value is -/

/-- The number that a raw value is; a text is none. -/
def Value.number? : Value → Option ℚ
  | decimal d => some d.toRat
  | int n => some n.toInt
  | uint n => some n.toNat
  | _ => none

/-- A number is a decimal of that value. -/
theorem Value.exists_decimal_of_number? {x : Value} {r : ℚ} (h : x.number? = some r) :
    x.isEmpty = false ∧ ∃ d, Scalar.decimalOfValue? x = some d ∧ d.toRat = r := by
  cases x with
  | decimal d => exact ⟨rfl, d, rfl, Option.some.inj h⟩
  | int n => exact ⟨rfl, _, rfl, (Decimal.toRat_ofInt64 n).trans (Option.some.inj h)⟩
  | uint n => exact ⟨rfl, _, rfl, (Decimal.toRat_ofUInt64 n).trans (Option.some.inj h)⟩
  | empty | bool _ | text _ | list _ | map _ => cases h

/-! ## Quantizing -/

namespace Decimal

variable {digits : ℕ} {d q : Decimal}

/-- Zeros behind the point do not change the number. -/
theorem toRat_of_padTo? (hle : d.scale ≤ digits) (h : d.padTo? digits = some q) :
    q.toRat = d.toRat := by
  obtain ⟨hneg, hmag, hscale⟩ := ofParts?_eq_some_iff.1 h
  have hcoeff : q.coefficient = d.coefficient * 10 ^ (digits - d.scale) := by
    simp only [coefficient, hneg, hmag, Nat.pow_eq]
    split <;> simp
  have hden : (10 : ℚ) ^ digits = 10 ^ d.scale * 10 ^ (digits - d.scale) := by
    rw [← pow_add, Nat.add_sub_cancel' hle]
  rw [toRat_eq, toRat_eq, hcoeff, hscale, hden]
  push_cast
  field_simp

/-- There is room for the zeros exactly if the coefficient with them has 96 bits. -/
theorem exists_padTo?_iff (hle : d.scale ≤ digits) (hdigits : digits ≤ 28) :
    (∃ q, d.padTo? digits = some q) ↔ |d.toRat * 10 ^ digits| < (limit : ℚ) := by
  have habs : |d.toRat * 10 ^ digits| = ((d.magnitude * 10 ^ (digits - d.scale) : ℕ) : ℚ) := by
    rw [toRat_mul_pow_of_le hle]
    push_cast
    rw [abs_mul, abs_coefficient, abs_of_pos (by positivity)]
  rw [habs, Nat.cast_lt, padTo?, ofParts?, Nat.pow_eq]
  split
  · next h => exact iff_of_true ⟨_, rfl⟩ h.1
  · next h => exact iff_of_false (by simp) fun hlt => h ⟨hlt, hdigits⟩

theorem toRat_of_quantize? (h : d.quantize? digits = some q) :
    q.toRat = roundEven digits d.toRat := by
  rw [quantize?_eq] at h
  rw [toRat_of_padTo? (scale_roundTo_le digits d) h, toRat_roundTo]

/-- Quantizing succeeds exactly if the rounded number can be written with the digits. -/
theorem exists_quantize?_iff (hdigits : digits ≤ 28) :
    (∃ q, d.quantize? digits = some q) ↔ |roundEven digits d.toRat * 10 ^ digits| <
      (limit : ℚ) := by
  rw [quantize?_eq, exists_padTo?_iff (scale_roundTo_le digits d) hdigits, toRat_roundTo]

end Decimal

namespace Precision

open Decimal

variable {p : Precision} {x : Value} {r : ℚ} {q : FixedDecimal}

/-- A number is brought into the precision as a decimal of that value. -/
theorem construct_of_number? (p : Precision) (hx : x.number? = some r) :
    ∃ d, d.toRat = r ∧ p.construct x = p.fix d := by
  obtain ⟨hraw, d, hd, hr⟩ := Value.exists_decimal_of_number? hx
  exact ⟨d, hr, by simp [construct, hraw, hd]⟩

theorem fix_eq_ok_iff {d : Decimal} :
    p.fix d = .ok q ↔ d.quantize? p.digits = some q.value ∧ q.digits = p.digits := by
  unfold fix
  cases d.quantize? p.digits with
  | none => simp
  | some v =>
    obtain ⟨w, n⟩ := q
    simp [eq_comm]

theorem exists_fix_iff {d : Decimal} :
    (∃ q, p.fix d = .ok q) ↔ ∃ v, d.quantize? p.digits = some v := by
  simp only [fix_eq_ok_iff]
  exact ⟨fun ⟨q, hq, _⟩ => ⟨q.value, hq⟩, fun ⟨v, hv⟩ => ⟨⟨v, p.digits⟩, hv, rfl⟩⟩

theorem fix_eq_error {d : Decimal} {err : Error} (h : p.fix d = .error err) :
    err = .constraintViolation d.text ("fraction-digits " ++ Numeral.natText p.digits) := by
  unfold fix at h
  split at h
  · cases h
  · exact (Except.error.inj h).symm

theorem toRat_of_fix {d : Decimal} (h : p.fix d = .ok q) :
    q.value.toRat = roundEven p.digits d.toRat :=
  toRat_of_quantize? (fix_eq_ok_iff.1 h).1

/-- **Quantization is exact**: a number is accepted exactly if the number rounded half to even
to the digits of the precision has a coefficient of 96 bits, and refused as a violation of the
precision otherwise.  What is made of it has exactly the digits of the precision and is the
rounded number; it is left as it is when it comes again, and of two numbers the greater one
never becomes the lesser one. -/
theorem rounds_exactly (p : Precision) (hx : x.number? = some r) :
    ((∃ q, p.construct x = .ok q) ↔ |roundEven p.digits r * 10 ^ p.digits| < 2 ^ 96) ∧
    (∀ err, p.construct x = .error err → ∃ d : Decimal, d.toRat = r ∧
      err = .constraintViolation d.text ("fraction-digits " ++ Numeral.natText p.digits)) ∧
    ∀ q, p.construct x = .ok q →
      q.digits = p.digits ∧ q.value.scale = p.digits ∧ q.value.toRat = roundEven p.digits r ∧
      p.construct (.decimal q.value) = .ok q ∧
      ∀ y s q', Value.number? y = some s → p.construct y = .ok q' → r ≤ s →
        q.value.le q'.value = true := by
  obtain ⟨d, rfl, hconstruct⟩ := construct_of_number? p hx
  have hlimit : ((limit : ℕ) : ℚ) = 2 ^ 96 := by norm_num [limit]
  rw [hconstruct]
  refine ⟨?_, fun err herr => ⟨d, rfl, fix_eq_error herr⟩, fun q hq => ?_⟩
  · rw [exists_fix_iff, exists_quantize?_iff p.digits_le, hlimit]
  · obtain ⟨hscale, hdigits⟩ := scale_of_fix hq
    refine ⟨hdigits, hscale, toRat_of_fix hq, construct_of_scale hscale hdigits,
      fun y s q' hy hq' hle => ?_⟩
    obtain ⟨d', rfl, hconstruct'⟩ := construct_of_number? p hy
    rw [hconstruct'] at hq'
    rw [le_iff_toRat, toRat_of_fix hq, toRat_of_fix hq']
    exact roundEven_mono p.digits hle

/-- The middle between two hundredths, as a decimal and as what is made of it. -/
theorem rounds_exactly_midpoint :
    ∃ d : Decimal, (Value.decimal d).number? = some (469 / 200) ∧
      ∃ q, Precision.construct ⟨2, by decide⟩ (.decimal d) = .ok q ∧ q.value.toRat = 234 / 100 ∧
        q.value.scale = 2 := by
  let d : Decimal := ⟨false, 2345, 3, by decide, by decide⟩
  have hd : (Value.decimal d).number? = some (469 / 200) := by
    have : d.toRat = 469 / 200 := by rw [toRat_eq]; norm_num [d, coefficient]
    exact congrArg some this
  have heven : nearestEven (469 / 200 * 10 ^ 2) = 234 :=
    nearestEven_eq_iff.2 (.inr ⟨by norm_num [abs_of_pos], by decide⟩)
  have hround : roundEven 2 (469 / 200) = 234 / 100 := by rw [roundEven, heven]; norm_num
  obtain ⟨haccept, -, hmade⟩ := rounds_exactly ⟨2, by decide⟩ hd
  obtain ⟨q, hq⟩ := haccept.2 (by rw [hround]; norm_num [abs_of_pos])
  obtain ⟨-, hscale, hrat, -⟩ := hmade q hq
  exact ⟨d, hd, q, hq, hrat.trans hround, hscale⟩

end Precision

end DataTree
