import DataTree.Proofs.Decimal.Precision
import DataTree.Proofs.Decimal.Reader
import DataTree.Proofs.Keys.Parts

/-!
# DataTree.Proofs.Decimal.Twice

Decimal texts are rounded twice.

A text is read as a decimal before it is brought into a precision.  Where it has more digits
than a decimal can hold, reading rounds half away from zero by one digit and forgets the rest,
and the precision then rounds half to even what is left.  Two roundings are not always one: if
the number that is read lies in the middle between two neighbours and the spelled number does
not, the second rounding cannot know on which side of the middle it was (`Astray`).

`rounds_what_is_read` says that this is all that can go wrong.  A text that succeeds has its
spelled number rounded half to even exactly if reading it does not go astray, and a text
whose digits fit into a decimal always has.
-/

namespace DataTree

namespace Decimal

/-! ## Rounding what has been rounded -/

variable {x y : ℚ} {j : ℤ}

/-- A number is rounded to above `j` if it is above the middle between `j` and its successor,
or in the middle and the successor is the even one. -/
theorem lt_nearestEven_iff : j < nearestEven x ↔ (j : ℚ) + 1 / 2 < x ∨ x = j + 1 / 2 ∧ Odd j := by
  obtain ⟨k, hk⟩ : ∃ k, nearestEven x = k := ⟨_, rfl⟩
  have hself := nearestEven_eq_iff.1 hk
  have hnear : |x - k| ≤ 1 / 2 := hself.elim le_of_lt fun h => h.1.le
  have heven : |x - k| = 1 / 2 → Even k :=
    fun htie => hself.elim (fun hlt => absurd htie hlt.ne) (·.2)
  obtain ⟨hlow, hhigh⟩ := abs_le.1 hnear
  rw [hk]
  constructor
  · intro hjk
    have hstep : (j : ℚ) + 1 ≤ k := by exact_mod_cast hjk
    rcases lt_or_eq_of_le (show (j : ℚ) + 1 / 2 ≤ x by linarith) with hlt | htie
    · exact .inl hlt
    · have hkj : (k : ℚ) = j + 1 := by linarith
      have hhalf : |x - k| = 1 / 2 := by rw [hkj, ← htie]; norm_num [abs_of_neg]
      obtain rfl : k = j + 1 := by exact_mod_cast hkj
      exact .inr ⟨htie.symm, Int.not_even_iff_odd.1 (Int.even_add_one.1 (heven hhalf))⟩
  · intro hx
    by_contra hkj
    have hle : (k : ℚ) ≤ j := by exact_mod_cast not_lt.1 hkj
    rcases hx with hlt | ⟨htie, hodd⟩
    · linarith
    · have hjk : (k : ℚ) = j := by linarith
      have hhalf : |x - k| = 1 / 2 := by rw [hjk, htie]; norm_num
      obtain rfl : k = j := by exact_mod_cast hjk
      exact Int.not_even_iff_odd.2 hodd (heven hhalf)

/-- Rounding `y` in place of `x` goes astray: `y` has come to the middle between two whole
numbers, of which the even one is on the other side of it than `x`; or `x` itself is in the
middle, and `y` has left it in the direction of the odd one. -/
def Astray (x y : ℚ) : Prop :=
  ∃ j : ℤ, y = j + 1 / 2 ∧ x < y ∧ Odd j ∨ y = j + 1 / 2 ∧ y < x ∧ Even j ∨
    x = j + 1 / 2 ∧ x < y ∧ Even j

/-- No middle between whole numbers lies between `x` and `y`, but `y` may be in the middle. -/
structure Abreast (x y : ℚ) : Prop where
  below : ∀ j : ℤ, x < j + 1 / 2 → y ≤ j + 1 / 2
  above : ∀ j : ℤ, (j : ℚ) + 1 / 2 ≤ x → j + 1 / 2 ≤ y

theorem Abreast.refl (x : ℚ) : Abreast x x := ⟨fun _ => le_of_lt, fun _ => id⟩

/-- Numbers that are abreast are rounded alike unless that goes astray. -/
theorem Abreast.nearestEven_eq_iff (h : Abreast x y) :
    nearestEven y = nearestEven x ↔ ¬ Astray x y := by
  have hall : nearestEven y = nearestEven x ↔ ∀ j, j < nearestEven y ↔ j < nearestEven x :=
    ⟨fun heq j => by rw [heq], eq_of_forall_lt_iff⟩
  rw [hall, Astray, not_exists]
  refine forall_congr' fun j => ?_
  rw [lt_nearestEven_iff, lt_nearestEven_iff]
  rcases lt_trichotomy x (j + 1 / 2) with hlt | htie | hgt
  · have hy := h.below j hlt
    grind
  · have hy := h.above j htie.ge
    grind
  · have hy := h.above j hgt.le
    grind

/-- Rounding to so many parts of a whole that its half is one of them, or to no parts at all,
does not pass by a middle. -/
theorem abreast_of_round {c : ℕ} (hc : c = 1 ∨ Even c) (hpos : 0 < c) (h : y * c = round (x * c)) :
    Abreast x y := by
  have hpos' : (0 : ℚ) < c := by exact_mod_cast hpos
  rw [round_eq] at h
  obtain rfl | ⟨l, rfl⟩ := hc
  · rw [Nat.cast_one, mul_one, mul_one] at h
    constructor
    · intro j hj
      have hle : ⌊x + 1 / 2⌋ ≤ j := Int.lt_add_one_iff.1 (Int.floor_lt.2 (by push_cast; linarith))
      have hle' : ((⌊x + 1 / 2⌋ : ℤ) : ℚ) ≤ j := by exact_mod_cast hle
      linarith
    · intro j hj
      have hle : j + 1 ≤ ⌊x + 1 / 2⌋ := Int.le_floor.2 (by push_cast; linarith)
      have hle' : (j : ℚ) + 1 ≤ ((⌊x + 1 / 2⌋ : ℤ) : ℚ) := by exact_mod_cast hle
      linarith
  · push_cast at h hpos'
    -- the middle is the sum of whole parts
    have hmiddle : ∀ j : ℤ, ((j : ℚ) + 1 / 2) * (l + l) = ((j * (l + l) + l : ℤ) : ℚ) := by
      intro j
      push_cast
      ring
    constructor
    · intro j hj
      have hx : x * (l + l) < ((j * (l + l) + l : ℤ) : ℚ) := by
        rw [← hmiddle]
        gcongr
      have hle : ⌊x * (l + l) + 1 / 2⌋ ≤ j * (l + l) + l :=
        Int.lt_add_one_iff.1 (Int.floor_lt.2 (by push_cast at hx ⊢; linarith))
      refine le_of_mul_le_mul_right ?_ hpos'
      rw [h, hmiddle]
      exact_mod_cast hle
    · intro j hj
      have hx : ((j * (l + l) + l : ℤ) : ℚ) ≤ x * (l + l) := by
        rw [← hmiddle]
        gcongr
      have hle : j * (l + l) + l ≤ ⌊x * (l + l) + 1 / 2⌋ := Int.le_floor.2 (by linarith)
      refine le_of_mul_le_mul_right ?_ hpos'
      rw [h, hmiddle]
      exact_mod_cast hle

/-- What is read with at least so many digits behind the point is abreast with the number
at these digits. -/
theorem Reads.abreast {m t digits : ℕ} (h : Reads x m t) (hdigits : digits ≤ t) :
    Abreast (x * 10 ^ digits) ((m : ℚ) / 10 ^ t * 10 ^ digits) := by
  have hpow : (10 : ℚ) ^ t = 10 ^ digits * ((10 ^ (t - digits) : ℕ) : ℚ) := by
    rw [← Nat.add_sub_cancel' hdigits, pow_add, Nat.add_sub_cancel_left]
    push_cast
    ring
  refine abreast_of_round (c := 10 ^ (t - digits)) ?_ (by positivity) ?_
  · cases t - digits with
    | zero => exact .inl rfl
    | succ n => exact .inr (Nat.even_pow.2 ⟨by decide, n.succ_ne_zero⟩)
  · rw [mul_assoc, mul_assoc, ← hpow, h.near]
    field_simp
    push_cast
    rfl

/-! ## Signs -/

namespace Sign

variable {sign : Sign}

theorem apply_injective (sign : Sign) : Function.Injective sign.apply := by
  cases sign with
  | minus => exact neg_injective
  | unsigned | plus => exact fun _ _ h => h

theorem abs_apply (sign : Sign) (hx : 0 ≤ x) : |sign.apply x| = x := by
  cases sign <;> simp [apply, abs_of_nonneg hx]

theorem roundEven_apply (sign : Sign) (digits : ℕ) (x : ℚ) :
    roundEven digits (sign.apply x) = sign.apply (roundEven digits x) := by
  cases sign with
  | minus => simp [apply, roundEven, neg_mul, nearestEven_neg, neg_div]
  | unsigned | plus => rfl

end Sign

/-! ## Numerals -/

/-- A plain numeral: a sign, digits, and perhaps a point with more digits behind it. -/
structure Plain where
  sign : Sign
  whole : List (Fin 10)
  fraction : Option (List (Fin 10))
  whole_ne : whole ≠ []

namespace Plain

/-- Digits in writing. -/
def digits (ds : List (Fin 10)) : List Char := ds.map fun d => Numeral.digitChar d.val

/-- The number of digits that go on with the number of those before them. -/
def onto (n : ℕ) (ds : List (Fin 10)) : ℕ := ds.foldl (fun n d => 10 * n + d.val) n

def chars (s : Plain) : List Char :=
  s.sign.text ++ (digits s.whole ++ pointed (s.fraction.map digits))

def text (s : Plain) : String := String.ofList s.chars

/-- The number of digits behind the point. -/
def places (s : Plain) : ℕ := (s.fraction.getD []).length

/-- The number of all digits, without sign and point. -/
def number (s : Plain) : ℕ := onto 0 (s.whole ++ s.fraction.getD [])

/-- The number that is spelled. -/
def toRat (s : Plain) : ℚ := s.sign.apply (s.number / 10 ^ s.places)

variable {s : Plain} {d : Decimal}

theorem abs_toRat (s : Plain) : |s.toRat| = s.number / 10 ^ s.places :=
  s.sign.abs_apply (by positivity)

theorem readDigits?_digits (n : ℕ) (ds : List (Fin 10)) :
    Numeral.readDigits? n (digits ds) = some (onto n ds) := by
  induction ds generalizing n with
  | nil => rfl
  | cons d ds ih =>
    rw [digits, List.map_cons, Numeral.readDigits?, Numeral.digit?_digitChar d.isLt]
    exact ih _

/-- There are no blanks in a plain numeral. -/
theorem trim_chars (s : Plain) : Text.trim s.chars = s.chars := by
  have hdigits : ∀ {ds : List (Fin 10)} {c : Char}, c ∈ digits ds → Text.isBlank c = false := by
    intro ds c hc
    obtain ⟨d, -, rfl⟩ := List.mem_map.1 hc
    exact Text.isBlank_of_isDigit (Numeral.isDigit_digitChar d.isLt)
  refine Text.trim_eq_self fun c hc => ?_
  simp only [chars, List.mem_append] at hc
  rcases hc with hc | hc | hc
  · have hsign : c = '+' ∨ c = '-' := by cases hs : s.sign <;> simp_all [Sign.text]
    obtain rfl | rfl := hsign <;> decide
  · exact hdigits hc
  · cases hfraction : s.fraction with
    | none => simp [hfraction, pointed] at hc
    | some ds =>
      rw [hfraction, Option.map_some, pointed, List.mem_cons] at hc
      obtain rfl | hc := hc
      · decide
      · exact hdigits hc

theorem getD_map_digits (s : Plain) :
    (s.fraction.map digits).getD [] = digits (s.fraction.getD []) := by
  cases s.fraction <;> rfl

/-- The digits behind the point go on with the number of those before it. -/
theorem readDigits?_fraction (s : Plain) :
    Numeral.readDigits? (onto 0 s.whole) ((s.fraction.map digits).getD []) = some s.number := by
  rw [getD_map_digits, readDigits?_digits, number, onto, onto, onto, List.foldl_append]

theorem length_fraction (s : Plain) : ((s.fraction.map digits).getD []).length = s.places := by
  rw [getD_map_digits, digits, List.length_map, places]

theorem reads (h : read? s.chars = some d) :
    Reads |s.toRat| d.magnitude d.scale ∧ d.toRat = s.sign.apply |d.toRat| := by
  have hne : digits s.whole ≠ [] := by simpa [digits] using s.whole_ne
  have hreads := reads_of_read? hne (readDigits?_digits 0 s.whole) s.readDigits?_fraction h
  rwa [length_fraction, ← abs_toRat] at hreads

theorem toRat_of_fits (h : read? s.chars = some d) (hnumber : s.number < limit)
    (hplaces : s.places ≤ 28) : d.toRat = s.toRat := by
  have hne : digits s.whole ≠ [] := by simpa [digits] using s.whole_ne
  obtain ⟨w, hw, hrat⟩ := exists_read?_of_fits s.sign hne (readDigits?_digits 0 s.whole)
    s.readDigits?_fraction hnumber (s.length_fraction.trans_le hplaces)
  obtain rfl : w = d := Option.some.inj (hw.symm.trans h)
  rw [hrat, length_fraction, toRat]

end Plain

end Decimal

namespace Precision

open Decimal

variable {p : Precision} {q : FixedDecimal}

/-- A decimal that has no room for one more digit gets none. -/
theorem digits_le_of_fix {d : Decimal} (h : p.fix d = .ok q) (hlarge : limit ≤ 10 * d.magnitude) :
    p.digits ≤ d.scale := by
  by_contra hlt
  obtain ⟨hq, -⟩ := fix_eq_ok_iff.1 h
  rw [quantize?_eq, roundTo_of_le (by omega)] at hq
  obtain ⟨-, hmagnitude, -⟩ := ofParts?_eq_some_iff.1 hq
  obtain ⟨n, hn⟩ := Nat.exists_eq_add_of_lt (Nat.not_le.1 hlt)
  have hpow : Nat.pow 10 (p.digits - d.scale) = 10 * 10 ^ n := by
    rw [Nat.pow_eq, show p.digits - d.scale = n + 1 by omega, pow_succ']
  have hlast := q.value.magnitude_lt
  rw [hmagnitude, hpow] at hlast
  have hmore : 10 * d.magnitude ≤ d.magnitude * (10 * 10 ^ n) := by
    rw [mul_left_comm, ← mul_assoc, mul_assoc]
    exact Nat.mul_le_mul_left 10 (Nat.le_mul_of_pos_right _ (by positivity))
  omega

/-- **A decimal text is rounded twice**, by reading it and by the precision.  If it succeeds, then
what is made of it has the digits of the precision and is the number that was read, rounded
half to even; the number that was read is the spelled one, rounded half away from zero to the
digits that it was read with.  The result is the spelled number, rounded half to even, if its
digits fit into a decimal, and in general exactly if reading does not go astray. -/
theorem rounds_what_is_read (p : Precision) (s : Plain) (h : p.construct (.text s.text) = .ok q) :
    ∃ d, read? s.chars = some d ∧ |d.toRat| * 10 ^ d.scale = round (|s.toRat| * 10 ^ d.scale) ∧
      q.value.scale = p.digits ∧ q.value.toRat = roundEven p.digits d.toRat ∧
      (s.number < 2 ^ 96 ∧ s.places ≤ 28 → q.value.toRat = roundEven p.digits s.toRat) ∧
      (q.value.toRat = roundEven p.digits s.toRat
        ↔ ¬ Astray (|s.toRat| * 10 ^ p.digits) (|d.toRat| * 10 ^ p.digits)) := by
  obtain ⟨d, hd, hfix⟩ : ∃ d, read? s.chars = some d ∧ p.fix d = .ok q := by
    simp only [construct, Value.isEmpty, Scalar.decimalOfValue?, Scalar.readDecimal?, Plain.text,
      String.toList_ofList, Plain.trim_chars] at h
    cases hd : read? s.chars with
    | none => simp [hd] at h
    | some d => exact ⟨d, rfl, by simpa [hd] using h⟩
  obtain ⟨hreads, hsign⟩ := Plain.reads hd
  have hrat := toRat_of_fix hfix
  refine ⟨d, hd, ?_, (scale_of_fix hfix).1, hrat, ?_, ?_⟩
  · rw [hreads.near, Decimal.abs_toRat]
    field_simp
    push_cast
    rfl
  · rintro ⟨hnumber, hplaces⟩
    rw [hrat, Plain.toRat_of_fits hd (lt_of_lt_of_eq hnumber (by norm_num)) hplaces]
  · have habreast : Abreast (|s.toRat| * 10 ^ p.digits) (|d.toRat| * 10 ^ p.digits) := by
      rw [Decimal.abs_toRat]
      rcases hreads.full with hexact | hscale | hlarge
      · have hself : (d.magnitude : ℚ) / 10 ^ d.scale = |s.toRat| := by
          rw [← hexact]
          field_simp
        rw [hself]
        exact .refl _
      · exact hreads.abreast (hscale ▸ p.digits_le)
      · exact hreads.abreast (digits_le_of_fix hfix hlarge)
    have hspelled : s.toRat = s.sign.apply |s.toRat| := by rw [Plain.abs_toRat, Plain.toRat]
    have hround : q.value.toRat = roundEven p.digits s.toRat
        ↔ roundEven p.digits |d.toRat| = roundEven p.digits |s.toRat| := by
      rw [hrat, ← (s.sign.apply_injective).eq_iff (a := roundEven p.digits |d.toRat|),
        ← Sign.roundEven_apply, ← Sign.roundEven_apply, ← hsign, ← hspelled]
    rw [hround, ← habreast.nearestEven_eq_iff, roundEven, roundEven, div_left_inj' (by positivity),
      Int.cast_inj]

/-- `2.3d500…01`, a little more than the middle between two hundredths, with one digit more than
are read. -/
def pastMiddle (d : Fin 10) : Plain :=
  ⟨.unsigned, [2], some ([3, d, 5] ++ List.replicate 25 0 ++ [1]), by decide⟩

theorem rounds_what_is_read_pastMiddle :
    ∃ q, Precision.construct ⟨2, by decide⟩ (.text (pastMiddle 5).text) = .ok q ∧
      q.value.toRat = roundEven 2 (pastMiddle 5).toRat := by
  have hmade : (Precision.construct ⟨2, by decide⟩ (.text (pastMiddle 5).text)).toBool = true := by
    decide +kernel
  have hread : (read? (pastMiddle 5).chars).map (fun d => (d.magnitude, d.scale))
      = some (23550000000000000000000000000, 28) := by
    decide +kernel
  cases hq : Precision.construct ⟨2, by decide⟩ (.text (pastMiddle 5).text) with
  | error err => simp [hq, Except.toBool] at hmade
  | ok q =>
    obtain ⟨d, hd, -, -, -, -, hiff⟩ := rounds_what_is_read ⟨2, by decide⟩ (pastMiddle 5) hq
    rw [hd, Option.map_some, Option.some.injEq, Prod.mk.injEq] at hread
    refine ⟨q, rfl, hiff.2 ?_⟩
    have hnumber : (pastMiddle 5).number = 235500000000000000000000000001 := by decide +kernel
    have hplaces : (pastMiddle 5).places = 29 := by decide
    rw [Decimal.abs_toRat, hread.1, hread.2, Plain.abs_toRat, hnumber, hplaces]
    rintro ⟨j, ⟨-, hlt, -⟩ | ⟨hmiddle, -, heven⟩ | ⟨-, hlt, -⟩⟩
    · norm_num at hlt
    · have hj : (j : ℚ) = 235 := by
        norm_num at hmiddle
        linarith
      obtain rfl : j = 235 := by exact_mod_cast hj
      exact absurd heven (by decide)
    · norm_num at hlt

/-- Not every text becomes the number that it spells, rounded half to even. -/
theorem not_rounds_spelled :
    ¬ ∀ (p : Precision) (s : Plain) (q : FixedDecimal), p.construct (.text s.text) = .ok q →
      q.value.toRat = roundEven p.digits s.toRat := by
  intro hall
  have hmade : (Precision.construct ⟨2, by decide⟩
    (.text (pastMiddle 4).text)).toOption.map (·.value)
      = some ⟨false, 234, 2, by decide, by decide⟩ := by
    decide +kernel
  cases hq : Precision.construct ⟨2, by decide⟩ (.text (pastMiddle 4).text) with
  | error err => simp [hq, Except.toOption] at hmade
  | ok q =>
    have hnumber : (pastMiddle 4).number = 234500000000000000000000000001 := by decide +kernel
    have hplaces : (pastMiddle 4).places = 29 := by decide
    have hspelled : (pastMiddle 4).toRat = 234500000000000000000000000001 / 10 ^ 29 := by
      rw [Plain.toRat, hnumber, hplaces]
      norm_num [pastMiddle, Sign.apply]
    have hnearest : nearestEven ((pastMiddle 4).toRat * 10 ^ 2) = 235 := by
      rw [hspelled]
      exact nearestEven_eq_iff.2 (.inl (by norm_num [abs_of_neg]))
    have hvalue : q.value = ⟨false, 234, 2, by decide, by decide⟩ := by
      simpa [hq, Except.toOption] using hmade
    have hrounded := hall ⟨2, by decide⟩ (pastMiddle 4) q hq
    rw [hvalue, roundEven, hnearest, toRat_eq] at hrounded
    norm_num [coefficient] at hrounded

end Precision

end DataTree
