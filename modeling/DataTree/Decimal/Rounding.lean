import DataTree.Decimal.Basic

/-!
# DataTree.Decimal.Rounding

Bringing a decimal to a given number of fractional digits.

* `roundTo` drops digits: to the nearest neighbour, and from the middle between
  two neighbours to the even one.  A decimal that is short enough stays as it is.
* `growBy` adds zeros one after another, until the coefficient would outgrow its 96
  bits; `rescale` goes towards a number of digits either way, and may fall short of it.
* `quantize?` rounds and rescales, and has a result only if that has exactly the digits
  asked for.  The result is that of adding all zeros at once, `padTo?`, which is exact,
  and impossible where there is no room for them (`quantize?_eq`).
-/

namespace DataTree.Decimal

/-! ## Division with rounding -/

/-- The quotient of two natural numbers, rounded to the nearest one and a tie to
the even one. -/
def divHalfEven (n k : Nat) : Nat :=
  if 2 * (n % k) < k ∨ (2 * (n % k) = k ∧ n / k % 2 = 0) then n / k else n / k + 1

/-- The quotient of two natural numbers, rounded to the nearest one and a tie
upwards. -/
def divHalfUp (n k : Nat) : Nat :=
  if 2 * (n % k) < k then n / k else n / k + 1

private theorem quotient_succ_le {n k : Nat} (hk : 0 < k) (hr : 0 < n % k) : n / k + 1 ≤ n := by
  have h := Nat.div_add_mod n k
  have : n / k ≤ k * (n / k) := Nat.le_mul_of_pos_left _ hk
  omega

theorem divHalfEven_le {n k : Nat} (hk : 0 < k) : divHalfEven n k ≤ n := by
  unfold divHalfEven
  split
  · exact Nat.div_le_self n k
  · exact quotient_succ_le hk (by omega)

theorem divHalfUp_le {n k : Nat} (hk : 0 < k) : divHalfUp n k ≤ n := by
  unfold divHalfUp
  split
  · exact Nat.div_le_self n k
  · exact quotient_succ_le hk (by omega)

/-! ## Fractional digits -/

/-- Keep at most `digits` fractional digits, rounding half to even.  A number that is
rounded to zero loses its sign. -/
def roundTo (digits : Nat) (d : Decimal) : Decimal :=
  if h : d.scale ≤ digits then d
  else
    let m := divHalfEven d.magnitude (Nat.pow 10 (d.scale - digits))
    ⟨d.negative && (m != 0 || d.magnitude == 0), m, digits,
      Nat.lt_of_le_of_lt (divHalfEven_le (Nat.pow_pos (by decide))) d.magnitude_lt,
      Nat.le_trans (Nat.le_of_lt (Nat.lt_of_not_le h)) d.scale_le⟩

/-- Keep at most `digits` fractional digits, rounding half away from zero.  The sign
stays. -/
def roundAwayTo (digits : Nat) (d : Decimal) : Decimal :=
  if h : d.scale ≤ digits then d
  else
    ⟨d.negative, divHalfUp d.magnitude (Nat.pow 10 (d.scale - digits)), digits,
      Nat.lt_of_le_of_lt (divHalfUp_le (Nat.pow_pos (by decide))) d.magnitude_lt,
      Nat.le_trans (Nat.le_of_lt (Nat.lt_of_not_le h)) d.scale_le⟩

/-- Add `n` zeros, or as many of them as the coefficient has room for. -/
def growBy : (n : Nat) → Decimal → Decimal
  | 0, d => d
  | n + 1, d =>
    if h : 10 * d.magnitude < limit ∧ d.scale < 28 then
      growBy n ⟨d.negative, 10 * d.magnitude, d.scale + 1, h.1, h.2⟩
    else d

/-- Come as close to `digits` fractional digits as possible: digits too many are dropped,
rounding half away from zero, and zeros added as long as there is room. -/
def rescale (digits : Nat) (d : Decimal) : Decimal :=
  if digits < d.scale then d.roundAwayTo digits else d.growBy (digits - d.scale)

/-- Exactly `digits` fractional digits: rounded half to even where there are
more, padded where there are fewer, and none if the number is too large for
that many. -/
def quantize? (digits : Nat) (d : Decimal) : Option Decimal :=
  let q := (d.roundTo digits).rescale digits
  if q.scale = digits then some q else none

/-- Add zeros up to `digits` fractional digits, all of them. -/
def padTo? (digits : Nat) (d : Decimal) : Option Decimal :=
  ofParts? d.negative (d.magnitude * Nat.pow 10 (digits - d.scale)) digits

theorem scale_roundTo_le (digits : Nat) (d : Decimal) : (d.roundTo digits).scale ≤ digits := by
  unfold roundTo
  split
  · assumption
  · exact Nat.le_refl _

theorem magnitude_roundTo {digits : Nat} {d : Decimal} (h : digits < d.scale) :
    (d.roundTo digits).magnitude = divHalfEven d.magnitude (Nat.pow 10 (d.scale - digits)) := by
  simp [roundTo, Nat.not_le.2 h]

/-- The coefficient of a rounded decimal. -/
theorem coefficient_roundTo {digits : Nat} {d : Decimal} (h : digits < d.scale) :
    (d.roundTo digits).coefficient
      = d.coefficient.sign * divHalfEven d.coefficient.natAbs (Nat.pow 10 (d.scale - digits)) := by
  have hm := magnitude_roundTo h
  have hzero : d.magnitude = 0 → divHalfEven d.magnitude (Nat.pow 10 (d.scale - digits)) = 0 :=
    fun hz => Nat.le_zero.1 (hz ▸ divHalfEven_le (Nat.pow_pos (by decide)))
  have hn : (d.roundTo digits).negative
      = (d.negative && (divHalfEven d.magnitude (Nat.pow 10 (d.scale - digits)) != 0
          || d.magnitude == 0)) := by
    simp [roundTo, Nat.not_le.2 h]
  rw [coefficient, hm, hn, natAbs_coefficient]
  generalize divHalfEven d.magnitude (Nat.pow 10 (d.scale - digits)) = m at hzero
  unfold coefficient
  cases d.negative with
  | false =>
    rcases Nat.eq_zero_or_pos d.magnitude with hz | hz
    · simp [hz, hzero hz]
    · simp [Int.sign_eq_one_of_pos (Int.natCast_pos.2 hz)]
  | true =>
    rcases Nat.eq_zero_or_pos d.magnitude with hz | hz
    · simp [hz, hzero hz]
    · have hsign : (-(d.magnitude : Int)).sign = -1 := Int.sign_eq_neg_one_of_neg (by omega)
      rcases Nat.eq_zero_or_pos m with hm0 | hm0
      · simp [hm0]
      · simp [hsign, Nat.pos_iff_ne_zero.1 hm0]

theorem roundTo_of_le {digits : Nat} {d : Decimal} (h : d.scale ≤ digits) :
    d.roundTo digits = d := by
  simp [roundTo, h]

/-- Zeros that have all been added are the ones that there is room for at once. -/
theorem growBy_eq (n : Nat) (d : Decimal) :
    (if (d.growBy n).scale = d.scale + n then some (d.growBy n) else none)
      = ofParts? d.negative (d.magnitude * Nat.pow 10 n) (d.scale + n) := by
  induction n generalizing d with
  | zero => simp [growBy, ofParts?_self]
  | succ n ih =>
    have hpow : Nat.pow 10 (n + 1) = 10 * Nat.pow 10 n := Nat.mul_comm _ _
    have hpos : 0 < Nat.pow 10 n := Nat.pow_pos (by decide)
    rw [growBy]
    split
    · have hnext : d.scale + (n + 1) = d.scale + 1 + n := by omega
      have hmore : d.magnitude * Nat.pow 10 (n + 1) = 10 * d.magnitude * Nat.pow 10 n := by
        rw [hpow, Nat.mul_left_comm, Nat.mul_assoc]
      rw [hnext, hmore]
      exact ih _
    · next hroom =>
      -- the first zero without room leaves no room for all of them either
      have hmany : 10 * d.magnitude ≤ d.magnitude * Nat.pow 10 (n + 1) := by
        rw [hpow, Nat.mul_left_comm]
        exact Nat.mul_le_mul_left 10 (Nat.le_mul_of_pos_right _ hpos)
      have hnone : ¬ (d.magnitude * Nat.pow 10 (n + 1) < limit ∧ d.scale + (n + 1) ≤ 28) := by
        rintro ⟨hlt, hle⟩
        exact hroom ⟨Nat.lt_of_le_of_lt hmany hlt, by omega⟩
      rw [if_neg (by omega), ofParts?, dif_neg hnone]

theorem quantize?_eq (digits : Nat) (d : Decimal) :
    d.quantize? digits = (d.roundTo digits).padTo? digits := by
  have hle := scale_roundTo_le digits d
  have hgrow := growBy_eq (digits - (d.roundTo digits).scale) (d.roundTo digits)
  rw [Nat.add_sub_cancel' hle] at hgrow
  simp only [quantize?, rescale, if_neg (Nat.not_lt.2 hle), padTo?, hgrow]

/-- A decimal with the digits asked for stays as it is. -/
theorem quantize?_self (d : Decimal) : d.quantize? d.scale = some d := by
  rw [quantize?_eq, roundTo_of_le (Nat.le_refl _), padTo?, Nat.sub_self]
  simpa using ofParts?_self d

theorem scale_of_quantize? {digits : Nat} {d q : Decimal} (h : d.quantize? digits = some q) :
    q.scale = digits := by
  rw [quantize?_eq] at h
  exact (ofParts?_eq_some_iff.1 h).2.2

end DataTree.Decimal
