import DataTree.Proofs.Decimal.Rounding
import Mathlib.Data.List.TakeWhile

/-!
# DataTree.Proofs.Decimal.Reader

What reading makes of the digits of a numeral.

A numeral without an exponent is a sign, digits, and perhaps a point with more digits; it
spells the number of all its digits, divided by a power of ten.  `read?_eq` takes sign and
point off, so that only the digits behind the point are left to be read:

* digits that fit are read as the number that they spell (`exists_read?_of_fits`), so that
  what is written for a decimal is read as the same number (`exists_read?_render`);
* whatever is read has the spelled number, rounded half away from zero to the digits that
  were taken, and no more digits could have been taken (`reads_of_read?`).
-/

namespace DataTree.Decimal

open Numeral (digit? readDigits?)

variable {started : Bool} {cs ws fs : List Char} {fraction : Option (List Char)}
  {n k d m t scale : ℕ}

/-! ## Digits -/

/-- More digits put the number into the space between a number and its successor. -/
theorem bounds_of_readDigits? (h : readDigits? n cs = some k) :
    n * 10 ^ cs.length ≤ k ∧ k < (n + 1) * 10 ^ cs.length := by
  induction cs generalizing n with
  | nil =>
    obtain rfl := Option.some.inj h
    simp
  | cons c cs ih =>
    obtain ⟨d, hc, h⟩ := Option.bind_eq_some_iff.1 h
    obtain ⟨hlow, hhigh⟩ := ih h
    have hd := Numeral.digit?_lt hc
    have hpow : 10 ^ (c :: cs).length = 10 * 10 ^ cs.length := by rw [List.length_cons, pow_succ']
    rw [hpow, ← mul_assoc, ← mul_assoc]
    constructor
    · exact le_trans (Nat.mul_le_mul_right _ (by omega)) hlow
    · exact lt_of_lt_of_le hhigh (Nat.mul_le_mul_right _ (by omega))

theorem le_of_readDigits? (h : readDigits? n cs = some k) : n ≤ k :=
  le_trans (Nat.le_mul_of_pos_right n (by positivity)) (bounds_of_readDigits? h).1

/-- Digits before the point are read as the number that they are, if that is not too large. -/
theorem readMagnitude?_whole (rest : List Char) (hn : n < limit) (h : readDigits? n cs = some k) :
    readMagnitude? false started n 0 (cs ++ rest)
      = if k < limit then readMagnitude? false (started || !cs.isEmpty) k 0 rest else none := by
  induction cs generalizing n started with
  | nil =>
    obtain rfl := Option.some.inj h
    simp [hn]
  | cons c cs ih =>
    obtain ⟨d, hc, h⟩ := Option.bind_eq_some_iff.1 h
    rw [List.cons_append, readMagnitude?, hc]
    by_cases hlt : 10 * n + d < limit
    · simp [Nat.not_le.2 hlt, ih hlt h]
    · have hlarge : ¬ k < limit := fun hk => hlt (lt_of_le_of_lt (le_of_readDigits? h) hk)
      simp [Nat.not_lt.1 hlt, hlarge]

/-- Digits behind the point are all read if there is room for them. -/
theorem readMagnitude?_fraction (h : readDigits? n cs = some k) (hk : k < limit)
    (hs : scale + cs.length ≤ 28) :
    readMagnitude? true true n scale cs = some (k, scale + cs.length) := by
  induction cs generalizing n scale with
  | nil =>
    obtain rfl := Option.some.inj h
    simp [readMagnitude?]
  | cons c cs ih =>
    obtain ⟨d, hc, h⟩ := Option.bind_eq_some_iff.1 h
    rw [List.length_cons] at hs ⊢
    have hlt : 10 * n + d < limit := lt_of_le_of_lt (le_of_readDigits? h) hk
    have hroom : scale ≠ 28 := by omega
    have hnext : readMagnitude? true true (10 * n + d) (scale + 1) cs =
        some (k, scale + 1 + cs.length) :=
      ih h (by omega)
    rw [readMagnitude?, hc]
    simp [hroom, Nat.not_le.2 hlt, hnext, Nat.add_assoc, Nat.add_comm 1]

/-! ## Digits that do not fit -/

/-- A number is read as `m` with `t` digits behind the point: it is rounded to that many, and
if that loses something there was no room for one more. -/
structure Reads (x : ℚ) (m t : ℕ) : Prop where
  near : round (x * 10 ^ t) = m
  full : x * 10 ^ t = m ∨ t = 28 ∨ limit ≤ 10 * m

/-- Numbers are rounded half away from zero. -/
theorem round_eq_of_near {x : ℚ} (hlow : (m : ℚ) - 1 / 2 ≤ x) (hhigh : x < m + 1 / 2) :
    round x = (m : ℤ) := by
  rw [round_eq, Int.floor_eq_iff]
  constructor <;> push_cast <;> linarith

/-- The digit behind the last one decides, and the ones behind it do not matter. -/
theorem reads_of_roundBy? {x : ℚ} (hn : n < limit) (hd : d < 10)
    (hfull : scale = 28 ∨ limit ≤ 10 * n + d) (hlow : ((10 * n + d : ℕ) : ℚ) ≤ x * 10 ^ scale * 10)
    (hhigh : x * 10 ^ scale * 10 < ((10 * n + d + 1 : ℕ) : ℚ))
    (h : roundBy? n scale d = some (m, t)) : Reads x m t := by
  push_cast at hlow hhigh
  have hzero : (0 : ℚ) ≤ d := Nat.cast_nonneg d
  have hnine : (d : ℚ) ≤ 9 := by exact_mod_cast Nat.le_of_lt_succ hd
  have hlargest : limit = 79228162514264337593543950335 + 1 := rfl
  unfold roundBy? at h
  split at h
  · -- the digit is dropped
    next hdown =>
    obtain ⟨rfl, rfl⟩ := Prod.mk.inj (Option.some.inj h)
    have hfour : (d : ℚ) ≤ 4 := by exact_mod_cast Nat.le_of_lt_succ hdown
    exact ⟨round_eq_of_near (by linarith) (by linarith),
      .inr (hfull.imp_right fun hlimit => by omega)⟩
  next hup =>
  have hfive : (5 : ℚ) ≤ d := by exact_mod_cast Nat.le_of_not_lt hup
  split at h
  · -- it is rounded up
    obtain ⟨rfl, rfl⟩ := Prod.mk.inj (Option.some.inj h)
    refine ⟨round_eq_of_near ?_ ?_, .inr (hfull.imp_right fun hlimit => by omega)⟩
    all_goals push_cast; linarith
  next hcarry =>
  split at h
  · cases h
  · -- the coefficient was the largest one: a digit is given up for the carry
    next hscale =>
    obtain ⟨rfl, rfl⟩ := Prod.mk.inj (Option.some.inj h)
    obtain rfl : n = 79228162514264337593543950335 := by omega
    obtain ⟨scale, rfl⟩ := Nat.exists_eq_succ_of_ne_zero hscale
    rw [pow_succ] at hlow hhigh
    refine ⟨round_eq_of_near ?_ ?_, .inr (.inr (by norm_num))⟩
    all_goals
      norm_num at hlow hhigh ⊢
      linarith

/-- Whatever is read of the digits behind the point, it is what they spell, rounded. -/
theorem reads_of_readMagnitude? (h : readDigits? n cs = some k) (hn : n < limit)
    (hread : readMagnitude? true true n scale cs = some (m, t)) :
    Reads ((k : ℚ) / 10 ^ (scale + cs.length)) m t := by
  induction cs generalizing n scale with
  | nil =>
    obtain rfl := Option.some.inj h
    simp only [readMagnitude?, if_true, Option.some.injEq, Prod.mk.injEq] at hread
    obtain ⟨rfl, rfl⟩ := hread
    have hself : (n : ℚ) / 10 ^ scale * 10 ^ scale = n := by field_simp
    rw [List.length_nil, Nat.add_zero]
    exact ⟨by rw [hself, round_natCast], .inl hself⟩
  | cons c cs ih =>
    obtain ⟨d, hc, h⟩ := Option.bind_eq_some_iff.1 h
    rw [readMagnitude?, hc] at hread
    by_cases hfull : scale = 28 ∨ limit ≤ 10 * n + d
    · have hround : roundBy? n scale d = some (m, t) := by
        simp only [Bool.true_and, beq_iff_eq, Bool.or_eq_true, decide_eq_true_eq, hfull,
          if_true] at hread
        split at hread
        · exact hread
        · cases hread
      obtain ⟨hlow, hhigh⟩ := bounds_of_readDigits? h
      have hshift : (k : ℚ) / 10 ^ (scale + (c :: cs).length) * 10 ^ scale * 10 =
          k / 10 ^ cs.length := by
        rw [List.length_cons, pow_add, pow_succ]
        field_simp
      refine reads_of_roundBy? hn (Numeral.digit?_lt hc) hfull ?_ ?_ hround
      · rw [hshift, le_div_iff₀ (by positivity)]
        exact_mod_cast hlow
      · rw [hshift, div_lt_iff₀ (by positivity)]
        exact_mod_cast hhigh
    · obtain ⟨hroom, hlt⟩ := not_or.1 hfull
      have hlen : scale + (c :: cs).length = scale + 1 + cs.length := by
        rw [List.length_cons]
        omega
      rw [hlen]
      exact ih h (Nat.not_le.1 hlt) (by simpa [hroom, hlt] using hread)

/-! ## Sign and point -/

/-- The sign of a numeral. -/
inductive Sign
  | unsigned
  | plus
  | minus
  deriving DecidableEq

namespace Sign

def text : Sign → List Char
  | unsigned => []
  | plus => ['+']
  | minus => ['-']

/-- The number of this sign, from its magnitude. -/
def apply : Sign → ℚ → ℚ
  | minus, x => -x
  | _, x => x

end Sign

variable {sign : Sign}

/-- The point with the digits behind it, where there is one. -/
def pointed : Option (List Char) → List Char
  | none => []
  | some fs => '.' :: fs

/-- Behind the digits before the point there are only those behind it. -/
theorem readMagnitude?_pointed (fraction : Option (List Char)) :
    readMagnitude? false true n 0 (pointed fraction)
      = readMagnitude? true true n 0 (fraction.getD []) := by
  have hpoint : digit? '.' = none := by decide
  cases fraction with
  | none => simp [pointed, readMagnitude?]
  | some fs =>
    rw [pointed, readMagnitude?, hpoint]
    simp

/-- Without an exponent mark there is no exponent. -/
theorem read?_of_plain (h : ∀ c ∈ cs, isExponentMark c = false) : read? cs = readPlain? cs := by
  have hrest : cs.dropWhile (fun c => !isExponentMark c) = [] := by
    simpa [List.dropWhile_eq_nil_iff] using h
  rw [read?, readScientific?, hrest]
  cases readPlain? cs <;> rfl

/-- A magnitude with its sign, which zero has not. -/
def signed? (sign : Sign) (part : ℕ × ℕ) : Option Decimal :=
  ofParts? (sign == .minus && part.1 != 0) part.1 part.2

theorem toRat_of_signed? {w : Decimal} (h : signed? sign (m, t) = some w) :
    w.magnitude = m ∧ w.scale = t ∧ w.toRat = sign.apply |w.toRat| := by
  obtain ⟨hneg, hm, ht⟩ := ofParts?_eq_some_iff.1 h
  refine ⟨hm, ht, ?_⟩
  rw [abs_toRat, toRat_eq, coefficient, hneg, hm]
  cases sign with
  | unsigned | plus => simp [Sign.apply]
  | minus =>
    by_cases hzero : m = 0
    · simp [Sign.apply, hzero]
    · simp [Sign.apply, hzero, neg_div]

/-- Digits start with no sign. -/
theorem readPlain?_signed (sign : Sign) {c : Char} (hc : (digit? c).isSome = true) :
    readPlain? (sign.text ++ c :: cs) =
      (readMagnitude? false false 0 0 (c :: cs)).bind (signed? sign) := by
  cases sign with
  | plus | minus => rfl
  | unsigned =>
    rw [Sign.text, List.nil_append, readPlain?.eq_def]
    split
    · next heq =>
      obtain ⟨rfl, rfl⟩ := List.cons.inj heq
      cases hc
    · next heq =>
      obtain ⟨rfl, rfl⟩ := List.cons.inj heq
      cases hc
    · rfl

/-- **A plain numeral** is read from its sign, its digits before the point, and those behind. -/
theorem read?_eq (sign : Sign) (hne : ws ≠ []) (hws : readDigits? 0 ws = some n)
    (hfs : readDigits? n (fraction.getD []) = some k) :
    read? (sign.text ++ (ws ++ pointed fraction))
      = if n < limit then (readMagnitude? true true n 0 (fraction.getD [])).bind (signed? sign)
        else none := by
  obtain ⟨c, cs, rfl⟩ := List.exists_cons_of_ne_nil hne
  have hdigit : ∀ {a}, (digit? a).isSome = true → isExponentMark a = false := by
    intro a ha
    by_contra hmark
    simp only [isExponentMark, Bool.not_eq_false, Bool.or_eq_true, beq_iff_eq] at hmark
    rcases hmark with rfl | rfl <;> cases ha
  have hplain : ∀ a ∈ sign.text ++ (c :: cs ++ pointed fraction), isExponentMark a = false := by
    intro a ha
    simp only [List.mem_append] at ha
    rcases ha with ha | ha | ha
    · cases sign <;> simp_all [Sign.text, isExponentMark]
    · exact hdigit (Numeral.isSome_digit?_of_mem hws ha)
    · cases fraction with
      | none => cases ha
      | some fs =>
        obtain rfl | ha := List.mem_cons.1 ha
        · rfl
        · exact hdigit (Numeral.isSome_digit?_of_mem hfs ha)
  rw [read?_of_plain hplain, List.cons_append,
    readPlain?_signed sign (Numeral.isSome_digit?_of_mem hws (List.mem_cons_self ..)),
    ← List.cons_append, readMagnitude?_whole _ (by decide) hws]
  split <;> simp [readMagnitude?_pointed]

/-- What is read of a numeral is what it spells, rounded. -/
theorem reads_of_read? {w : Decimal} (hne : ws ≠ []) (hws : readDigits? 0 ws = some n)
    (hfs : readDigits? n (fraction.getD []) = some k)
    (h : read? (sign.text ++ (ws ++ pointed fraction)) = some w) :
    Reads ((k : ℚ) / 10 ^ (fraction.getD []).length) w.magnitude w.scale ∧
      w.toRat = sign.apply |w.toRat| := by
  rw [read?_eq sign hne hws hfs] at h
  split at h
  · next hn =>
    obtain ⟨⟨m, t⟩, hread, h⟩ := Option.bind_eq_some_iff.1 h
    obtain ⟨rfl, rfl, hrat⟩ := toRat_of_signed? h
    have hreads := reads_of_readMagnitude? hfs hn hread
    rw [Nat.zero_add] at hreads
    exact ⟨hreads, hrat⟩
  · cases h

/-- A numeral whose digits all fit is read as the number that it spells. -/
theorem exists_read?_of_fits (sign : Sign) (hne : ws ≠ []) (hws : readDigits? 0 ws = some n)
    (hfs : readDigits? n (fraction.getD []) = some k) (hk : k < limit)
    (hlen : (fraction.getD []).length ≤ 28) :
    ∃ w, read? (sign.text ++ (ws ++ pointed fraction)) = some w ∧
      w.toRat = sign.apply ((k : ℚ) / 10 ^ (fraction.getD []).length) := by
  have hread : readMagnitude? true true n 0 (fraction.getD []) =
      some (k, 0 + (fraction.getD []).length) :=
    readMagnitude?_fraction hfs hk (by omega)
  obtain ⟨w, hw⟩ : ∃ w, signed? sign (k, (fraction.getD []).length) = some w :=
    ⟨_, dif_pos ⟨hk, hlen⟩⟩
  obtain ⟨hm, ht, hrat⟩ := toRat_of_signed? hw
  refine ⟨w, ?_, by rw [hrat, abs_toRat, hm, ht]⟩
  rw [read?_eq sign hne hws hfs, if_pos (lt_of_le_of_lt (le_of_readDigits? hfs) hk), hread,
    Nat.zero_add, Option.bind_some, hw]

/-! ## Reading what was written -/

/-- What is written for a decimal is read as the same number. -/
theorem exists_read?_render (d : Decimal) : ∃ w, read? d.render = some w ∧ w.toRat = d.toRat := by
  let sign : Sign := if d.negative then .minus else .unsigned
  let fraction : Option (List Char) :=
    if d.scale = 0 then none else some (Numeral.fixedDigits d.scale (d.magnitude % 10 ^ d.scale))
  have hrender : d.render
      = sign.text ++ (Numeral.renderNat (d.magnitude / 10 ^ d.scale) ++ pointed fraction) := by
    simp only [render, sign, fraction, Nat.pow_eq]
    split <;> split <;> simp [Sign.text, pointed]
  have hlen : (fraction.getD []).length = d.scale := by
    simp only [fraction]
    split
    · next hzero => simp [hzero]
    · simp
  have hfs : readDigits? (d.magnitude / 10 ^ d.scale) (fraction.getD []) = some d.magnitude := by
    simp only [fraction]
    split
    · next hzero => simp [hzero, readDigits?]
    · simp only [Option.getD_some, Numeral.readDigits?_fixedDigits, Nat.pow_eq, Nat.mod_mod]
      rw [mul_comm, Nat.div_add_mod]
  obtain ⟨w, hw, hrat⟩ := exists_read?_of_fits sign (Numeral.renderNat_ne_nil _)
    (Numeral.readDigits?_renderNat _) hfs d.magnitude_lt (hlen.trans_le d.scale_le)
  refine ⟨w, hrender ▸ hw, ?_⟩
  rw [hrat, hlen, toRat_eq, coefficient]
  simp only [sign]
  split <;> simp [Sign.apply, neg_div]

end DataTree.Decimal
