import DataTree.Numeral

/-!
# DataTree.Decimal.Basic

Decimal numbers with a remembered number of fractional digits.

A `Decimal` is a sign, a magnitude and a scale; it denotes `magnitude / 10 ^ scale` with
that sign.  The magnitude has 96 bits and there are at most 28 fractional digits; both
bounds are part of the type.  `1.5` and `1.50` are different decimals of the same value:
`Decimal.same` and `Decimal.le` compare values, `=` compares the written forms.  Zero
may have a sign, which counts for its written form only.
-/

namespace DataTree

/-- One more than the largest magnitude, which has 96 bits. -/
abbrev Decimal.limit : Nat := 79228162514264337593543950336

/-- A number `± magnitude / 10 ^ scale` within the bounds of the representation. -/
structure Decimal where
  negative : Bool
  magnitude : Nat
  scale : Nat
  magnitude_lt : magnitude < Decimal.limit
  scale_le : scale ≤ 28
  deriving DecidableEq

namespace Decimal

/-- The decimal with these parts, if they are within bounds. -/
def ofParts? (negative : Bool) (magnitude scale : Nat) : Option Decimal :=
  if h : magnitude < limit ∧ scale ≤ 28 then some ⟨negative, magnitude, scale, h.1, h.2⟩
  else none

theorem ofParts?_self (d : Decimal) : ofParts? d.negative d.magnitude d.scale = some d :=
  dif_pos ⟨d.magnitude_lt, d.scale_le⟩

theorem ofParts?_eq_some_iff {b : Bool} {m s : Nat} {d : Decimal} :
    ofParts? b m s = some d ↔ d.negative = b ∧ d.magnitude = m ∧ d.scale = s := by
  constructor
  · intro h
    unfold ofParts? at h
    split at h
    · obtain rfl := Option.some.inj h; exact ⟨rfl, rfl, rfl⟩
    · exact absurd h (by simp)
  · rintro ⟨rfl, rfl, rfl⟩; exact ofParts?_self d

/-- Zero without sign and fractional digits. -/
def zero : Decimal := ⟨false, 0, 0, by decide, by decide⟩

instance : Inhabited Decimal := ⟨zero⟩

/-- A whole number of 64 bits; it has no fractional digits. -/
def ofInt64 (w : Int64) : Decimal :=
  ⟨w.toInt < 0, w.toInt.natAbs, 0,
    by have := Int64.le_toInt w; have := Int64.toInt_lt w; unfold limit; omega, by decide⟩

/-- A natural number of 64 bits; it has no fractional digits. -/
def ofUInt64 (w : UInt64) : Decimal :=
  ⟨false, w.toNat, 0, by have := UInt64.toNat_lt w; unfold limit; omega, by decide⟩

/-- The digits without the point, as a number with the sign. -/
def coefficient (d : Decimal) : Int := if d.negative then -(d.magnitude : Int) else d.magnitude

@[simp] theorem natAbs_coefficient (d : Decimal) : d.coefficient.natAbs = d.magnitude := by
  unfold coefficient
  split <;> simp

/-- A whole number keeps its value. -/
theorem coefficient_ofInt64 (w : Int64) : (ofInt64 w).coefficient = w.toInt := by
  simp only [coefficient, ofInt64, decide_eq_true_eq]
  split <;> omega

theorem coefficient_ofUInt64 (w : UInt64) : (ofUInt64 w).coefficient = w.toNat := rfl

/-! ## Value and order -/

/-- The number that a decimal denotes. -/
def toRat (d : Decimal) : Rat := mkRat d.coefficient (Nat.pow 10 d.scale)

/-- Order by value, compared over a common denominator. -/
def cmp (a b : Decimal) : Ordering :=
  compare (a.coefficient * Nat.pow 10 b.scale) (b.coefficient * Nat.pow 10 a.scale)

/-- Not above in value. -/
def le (a b : Decimal) : Bool := a.cmp b != .gt

/-- Equal in value, whatever the number of fractional digits. -/
def same (a b : Decimal) : Bool := a.cmp b == .eq

theorem same_iff (a b : Decimal) :
    a.same b = true ↔ a.coefficient * Nat.pow 10 b.scale = b.coefficient * Nat.pow 10 a.scale := by
  simp [same, cmp]

theorem le_iff (a b : Decimal) :
    a.le b = true ↔ a.coefficient * Nat.pow 10 b.scale ≤ b.coefficient * Nat.pow 10 a.scale := by
  simp [le, cmp, bne_iff_ne, Int.isLE_compare, Ordering.ne_gt_iff_isLE]

theorem same_refl (a : Decimal) : a.same a = true := by simp [same_iff]

theorem same_comm (a b : Decimal) : a.same b = b.same a := by
  rw [Bool.eq_iff_iff, same_iff, same_iff]; exact eq_comm

/-- The number itself, if it is whole. -/
def toInt? (d : Decimal) : Option Int :=
  if d.coefficient % Nat.pow 10 d.scale = 0 then some (d.coefficient / Nat.pow 10 d.scale) else none

/-- The number itself, if it is whole and has no sign. -/
def toNat? (d : Decimal) : Option Nat :=
  if d.negative then none
  else if d.magnitude % Nat.pow 10 d.scale = 0 then some (d.magnitude / Nat.pow 10 d.scale)
  else none

/-! ## Text -/

/-- The sign if there is one, the whole part, and exactly `scale` digits after the point;
no point if there are none. -/
def render (d : Decimal) : List Char :=
  let whole := Numeral.renderNat (d.magnitude / Nat.pow 10 d.scale)
  let fraction := Numeral.fixedDigits d.scale (d.magnitude % Nat.pow 10 d.scale)
  (if d.negative then ['-'] else []) ++ whole
    ++ (if d.scale = 0 then [] else '.' :: fraction)

/-- The text of a decimal. -/
def text (d : Decimal) : String := String.ofList d.render

end Decimal

end DataTree
