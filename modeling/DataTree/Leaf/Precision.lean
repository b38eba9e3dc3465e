import DataTree.Scalar.Basic
import DataTree.Error

/-!
# DataTree.Leaf.Precision

Decimal leaves with a fixed number of fractional digits.  Every value is rounded
half to even to that many digits, or padded with zeros; it is refused where the
number is too large to be written with them.
-/

namespace DataTree

/-- A number of fractional digits that decimals can have. -/
structure Precision where
  digits : Nat
  digits_le : digits ≤ 28

/-- A decimal of a fixed precision. -/
structure FixedDecimal where
  value : Decimal
  digits : Nat

namespace FixedDecimal

/-- Equal in value and precision. -/
def same (a b : FixedDecimal) : Bool := a.value.same b.value && a.digits == b.digits

/-- Order by value. -/
def cmp (a b : FixedDecimal) : Ordering := (a.value.cmp b.value).then (compare a.digits b.digits)

end FixedDecimal

namespace Precision

/-- The precision with so many digits, if decimals can have that many. -/
def ofDigits (digits : Nat) : Except Error Precision :=
  if h : digits ≤ 28 then .ok ⟨digits, h⟩ else .error (.invalidPrecision digits)

/-- A decimal in this precision. -/
def fix (p : Precision) (d : Decimal) : Except Error FixedDecimal :=
  match d.quantize? p.digits with
  | some q => .ok ⟨q, p.digits⟩
  | none =>
    .error (.constraintViolation d.text ("fraction-digits " ++ Numeral.natText p.digits))

/-- A raw value in this precision; an absent one counts as zero. -/
def construct (p : Precision) (raw : Value) : Except Error FixedDecimal :=
  if raw.isEmpty then p.fix .zero
  else
    match Scalar.decimalOfValue? raw with
    | some d => p.fix d
    | none =>
      .error (.typeMismatch raw.toText
        ("decimal64 with " ++ Numeral.natText p.digits ++ " fraction digits"))

/-- A constructed value has exactly the digits of the precision. -/
theorem scale_of_fix {p : Precision} {d : Decimal} {q : FixedDecimal} (h : p.fix d = .ok q) :
    q.value.scale = p.digits ∧ q.digits = p.digits := by
  unfold fix at h
  split at h
  · next hq =>
    obtain rfl := Except.ok.inj h
    exact ⟨Decimal.scale_of_quantize? hq, rfl⟩
  · cases h

/-- A decimal with the digits of the precision stays as it is. -/
theorem fix_of_scale {p : Precision} {d : Decimal} (h : d.scale = p.digits) :
    p.fix d = .ok ⟨d, p.digits⟩ := by
  have hself := Decimal.quantize?_self d
  rw [h] at hself
  simp [fix, hself]

/-- A value that has the digits of the precision already is made of itself. -/
theorem construct_of_scale {p : Precision} {q : FixedDecimal} (hscale : q.value.scale = p.digits)
    (hdigits : q.digits = p.digits) : p.construct (.decimal q.value) = .ok q := by
  have hself : p.construct (.decimal q.value) = p.fix q.value := rfl
  rw [hself, fix_of_scale hscale, ← hdigits]

end Precision

end DataTree
