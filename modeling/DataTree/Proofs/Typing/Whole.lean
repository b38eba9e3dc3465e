import DataTree.Proofs.Decimal.Number
import DataTree.Proofs.Range.ReadBack

/-!
# DataTree.Proofs.Typing.Whole

Types of whole numbers judge the number and not the form that it comes in.

A whole number comes as a word with or without sign, as a decimal with any number of zeros
behind the point, or as its numeral with blanks around it (`Value.Denotes`).  Every form of a
number is turned into the same word, or none is (`int64OfValue?_of_denotes`,
`uint64OfValue?_of_denotes`); so restrictions see the same word and have the same to say about
it (`construct_denoted`).

One form is left out: a decimal zero with a minus sign (`Value.IsNegativeZero`) is no unsigned
word, although the number that it denotes is one.
-/

namespace DataTree

open Outcome

/-! ## Forms of a number -/

namespace Value

/-- The raw value is a form of the whole number. -/
inductive Denotes (n : ℤ) : Value → Prop
  | int {w : Int64} (h : w.toInt = n) : Denotes n (int w)
  | uint {w : UInt64} (h : (w.toNat : ℤ) = n) : Denotes n (uint w)
  | decimal {d : Decimal} (h : d.toRat = n) : Denotes n (decimal d)
  | text {s : String} {before after : List Char} (hbefore : Text.IsBlanks before)
      (hafter : Text.IsBlanks after) (h : s.toList = before ++ (Numeral.renderInt n ++ after)) :
      Denotes n (text s)

/-- A decimal zero with a minus sign. -/
def IsNegativeZero : Value → Prop
  | decimal d => d.negative = true ∧ d.magnitude = 0
  | _ => False

end Value

namespace Decimal

variable {d : Decimal} {n : ℤ}

/-- The coefficient of a whole number. -/
theorem coefficient_of_whole (h : d.toRat = n) : d.coefficient = n * 10 ^ d.scale := by
  have hmul := d.toRat_mul_pow
  rw [h] at hmul
  exact_mod_cast hmul.symm

/-- A whole number is read as what it is. -/
theorem toInt?_of_whole (h : d.toRat = n) : d.toInt? = some n := by
  have hpow : (10 : ℤ) ^ d.scale ≠ 0 := by positivity
  rw [toInt?, coefficient_of_whole h]
  simp [Nat.pow_eq, hpow]

/-- A sign stands before a number below zero, or before zero. -/
theorem toNat?_of_negative (hneg : d.negative = true) : d.toNat? = none := by simp [toNat?, hneg]

/-- A whole number without a sign is read as what it is. -/
theorem toNat?_of_whole (h : d.toRat = n) (hpos : d.negative = false) :
    d.toNat? = some n.toNat ∧ 0 ≤ n := by
  have hpow : 0 < 10 ^ d.scale := by positivity
  have hcoefficient := coefficient_of_whole h
  rw [coefficient, if_neg (by simp [hpos])] at hcoefficient
  have hn : 0 ≤ n := by
    by_contra hlt
    have hlow : n * 10 ^ d.scale < 0 := mul_neg_of_neg_of_pos (not_le.1 hlt) (by positivity)
    omega
  obtain ⟨m, rfl⟩ := Int.eq_ofNat_of_zero_le hn
  have hmagnitude : d.magnitude = m * 10 ^ d.scale := by exact_mod_cast hcoefficient
  refine ⟨?_, hn⟩
  simp [toNat?, hpos, hmagnitude, Nat.pow_eq, Nat.mul_div_cancel _ hpow]

/-- Below zero there is a sign, and with a sign the number is not above zero. -/
theorem neg_of_negative (h : d.toRat = n) (hneg : d.negative = true) (hzero : d.magnitude ≠ 0) :
    n < 0 := by
  have hcoefficient := coefficient_of_whole h
  rw [coefficient, if_pos hneg] at hcoefficient
  by_contra hle
  have hhigh : 0 ≤ n * 10 ^ d.scale := mul_nonneg (not_lt.1 hle) (by positivity)
  omega

end Decimal

namespace Numeral

theorem int64?_eq_some_iff {n : ℤ} {w : Int64} : int64? n = some w ↔ w.toInt = n := by
  refine ⟨toInt_of_int64?, ?_⟩
  rintro rfl
  exact int64?_toInt w

theorem uint64?_eq_some_iff {n : ℤ} {w : UInt64} : uint64? n = some w ↔ (w.toNat : ℤ) = n := by
  refine ⟨fun h => ?_, ?_⟩
  · unfold uint64? at h
    split at h
    · next hn =>
      obtain rfl := Option.some.inj h
      rw [UInt64.toNat_ofNat_of_lt' hn.2, Int.toNat_of_nonneg hn.1]
    · cases h
  · rintro rfl
    exact uint64?_toNat w

theorem uint64?_of_neg {n : ℤ} (h : n < 0) : uint64? n = none := if_neg (by omega)

end Numeral

namespace Text

theorem tight_renderInt (n : ℤ) : Tight (Numeral.renderInt n) := by
  refine tight_of_forall ?_ fun c hc => ?_
  · rw [Numeral.renderInt]
    split
    · exact List.cons_ne_nil _ _
    · exact Numeral.renderNat_ne_nil _
  · obtain rfl | hdigit := Range.eq_or_isDigit_of_mem_renderInt hc
    · decide
    · exact isBlank_of_isDigit hdigit

end Text

/-! ## Words -/

namespace Scalar

variable {n : ℤ} {raw other : Value}

/-- **Every form of a number is the same signed word.** -/
theorem int64OfValue?_of_denotes (h : raw.Denotes n) : int64OfValue? raw = Numeral.int64? n := by
  cases h with
  | int h =>
    subst h
    exact (Numeral.int64?_toInt _).symm
  | uint h =>
    subst h
    rfl
  | decimal h => rw [int64OfValue?, Decimal.toInt?_of_whole h, Option.bind_some]
  | text hbefore hafter h =>
    rw [int64OfValue?, readInt64?, h, (Text.tight_renderInt n).trim_eq hbefore hafter,
      Numeral.readInt?_renderInt, Option.bind_some]

/-- **Every form of a number is the same unsigned word**, but for a zero with a sign. -/
theorem uint64OfValue?_of_denotes (h : raw.Denotes n) (hzero : ¬ raw.IsNegativeZero) :
    uint64OfValue? raw = Numeral.uint64? n := by
  cases h with
  | int h =>
    subst h
    rfl
  | uint h =>
    subst h
    exact (Numeral.uint64?_toNat _).symm
  | @decimal d h =>
    cases hneg : d.negative with
    | true =>
      have hlow := Decimal.neg_of_negative h hneg fun hm => hzero ⟨hneg, hm⟩
      rw [uint64OfValue?, Decimal.toNat?_of_negative hneg, Numeral.uint64?_of_neg hlow]
      rfl
    | false =>
      obtain ⟨hwhole, hn⟩ := Decimal.toNat?_of_whole h hneg
      rw [uint64OfValue?, hwhole, Option.bind_some, Int.toNat_of_nonneg hn]
  | text hbefore hafter h =>
    rw [uint64OfValue?, readUInt64?, h, (Text.tight_renderInt n).trim_eq hbefore hafter,
      Numeral.readUnsigned?_renderInt]
    split
    · next hlow => rw [Numeral.uint64?_of_neg hlow]; rfl
    · next hn => rw [Option.bind_some, Int.toNat_of_nonneg (not_lt.1 hn)]

/-- A negative zero is no unsigned number. -/
theorem uint64OfValue?_of_isNegativeZero (h : raw.IsNegativeZero) : uint64OfValue? raw = none := by
  cases raw with
  | decimal d => rw [uint64OfValue?, Decimal.toNat?_of_negative h.1]; rfl
  | _ => exact h.elim

end Scalar

/-! ## Outcomes -/

/-- The same outcome but for the text of a value that has no form in the base type. -/
inductive Alike {β : Type} : Except Error β → Except Error β → Prop
  | same (r : Except Error β) : Alike r r
  | mismatch (shown shown' expected : String) :
    Alike (.error (.typeMismatch shown expected)) (.error (.typeMismatch shown' expected))

namespace ScalarType

variable {α : Type} [Scalar α] {type : ScalarType α} {raw other : Value}

/-- Of a raw value only its form counts. -/
theorem construct_alike (h : Scalar.ofValue? (α := α) raw = Scalar.ofValue? other) :
    Alike (type.construct raw) (type.construct other) := by
  rw [construct, construct, check, check, h]
  split
  · exact .mismatch _ _ _
  · exact .same _

/-- A type accepts what it can read and admits. -/
theorem exists_construct_iff :
    (∃ v, type.construct raw = .ok v) ↔ ∃ v, Scalar.ofValue? raw = some v ∧
      type.admits v = true := by
  constructor
  · rintro ⟨v, hv⟩
    obtain ⟨w, hw, -⟩ := map_eq_ok.1 hv
    exact ⟨w, check_eq_ok_iff.1 hw⟩
  · rintro ⟨v, hv⟩
    exact ⟨⟨v, type⟩, map_eq_ok.2 ⟨v, check_eq_ok_iff.2 hv, rfl⟩⟩

/-- A range between two values admits what is between them. -/
theorem admits_between {low high v : α} :
    ({ restrictions := [.range (.between low high)] } : ScalarType α).admits v = true ↔
      Scalar.le low v = true ∧ Scalar.le v high = true := by
  simp [admits, Restriction.admits, Range.contains_iff, Range.between]

/-- What a base type of whole numbers makes of two forms of a number: the same, that number, and
without restrictions nothing if the number is outside of the bounds. -/
structure JudgesNumber (α : Type) [Scalar α] (number : α → ℤ) (low high n : ℤ)
    (raw other : Value) : Prop where
  alike : ∀ type : ScalarType α, Alike (type.construct raw) (type.construct other)
  number_eq : ∀ (type : ScalarType α) (v : Restricted α),
    type.construct raw = .ok v → number v.value = n
  accepts_iff : (∃ v, ({} : ScalarType α).construct raw = .ok v) ↔ low ≤ n ∧ n ≤ high

/-- Forms of which the word is known are judged by it. -/
theorem judgesNumber_of_word {number : α → ℤ} {low high n : ℤ} {word? : Option α}
    (hword : ∀ w, word? = some w ↔ number w = n)
    (hbounds : (∃ w, number w = n) ↔ low ≤ n ∧ n ≤ high) (hraw : Scalar.ofValue? raw = word?)
    (hother : Scalar.ofValue? other = word?) : JudgesNumber α number low high n raw other where
  alike type := construct_alike (hraw.trans hother.symm)
  number_eq type v hv := by
    obtain ⟨w, hw, rfl⟩ := map_eq_ok.1 hv
    have hform := (check_eq_ok_iff.1 hw).1
    exact (hword w).1 (hraw.symm.trans hform)
  accepts_iff := by
    rw [exists_construct_iff, ← hbounds, hraw]
    simp [hword, admits]

end ScalarType

namespace LeafType

variable {n : ℤ} {raw : Value}

/-- The signed types by the number of their bits. -/
def signedWidths : List (ℕ × LeafType) := [(8, int8), (16, int16), (32, int32), (64, int64)]

/-- The unsigned types by the number of their bits. -/
def unsignedWidths : List (ℕ × LeafType) := [(8, uint8), (16, uint16), (32, uint32), (64, uint64)]

theorem isEmpty_of_denotes (h : raw.Denotes n) : raw.isEmpty = false := by cases h <;> rfl

theorem exists_construct_int (hraw : raw.isEmpty = false) {type : ScalarType Int64} :
    (∃ v, (int type).construct raw = .ok (some v)) ↔ ∃ v, type.construct raw = .ok v := by
  rw [construct, if_neg (by simp [hraw]), constructPlain]
  · cases type.construct raw <;> simp [Except.map]
  · simp

theorem exists_construct_uint (hraw : raw.isEmpty = false) {type : ScalarType UInt64} :
    (∃ v, (uint type).construct raw = .ok (some v)) ↔ ∃ v, type.construct raw = .ok v := by
  rw [construct, if_neg (by simp [hraw]), constructPlain]
  · cases type.construct raw <;> simp [Except.map]
  · simp

/-- A signed type accepts the numbers between its bounds. -/
theorem exists_construct_signed (h : raw.Denotes n) {low high : Int64} :
    (∃ v, (signed low high).construct raw = .ok (some v)) ↔ low.toInt ≤ n ∧ n ≤ high.toInt := by
  rw [signed, exists_construct_int (isEmpty_of_denotes h), ScalarType.exists_construct_iff]
  have hword : ∀ w : Int64, Scalar.ofValue? raw = some w ↔ w.toInt = n := fun w => by
    rw [← Numeral.int64?_eq_some_iff, ← Scalar.int64OfValue?_of_denotes h]
    rfl
  simp only [hword, ScalarType.admits_between, Scalar.le, decide_eq_true_eq]
  constructor
  · rintro ⟨w, rfl, hbounds⟩
    exact hbounds
  · rintro ⟨hlow, hhigh⟩
    have hfirst := Int64.le_toInt low
    have hlast := Int64.toInt_lt high
    have hn : (Int64.ofInt n).toInt = n :=
      Int64.toInt_ofInt_of_le (hfirst.trans hlow) (hhigh.trans_lt hlast)
    exact ⟨.ofInt n, hn, by rwa [hn], by rwa [hn]⟩

/-- An unsigned type accepts the numbers in its range, in every form but the negative zero. -/
theorem exists_construct_unsigned (h : raw.Denotes n) (hzero : ¬ raw.IsNegativeZero)
    {high : UInt64} :
    (∃ v, (unsigned high).construct raw = .ok (some v)) ↔ 0 ≤ n ∧ n ≤ high.toNat := by
  rw [unsigned, exists_construct_uint (isEmpty_of_denotes h), ScalarType.exists_construct_iff]
  have hword : ∀ w : UInt64, Scalar.ofValue? raw = some w ↔ (w.toNat : ℤ) = n := fun w => by
    rw [← Numeral.uint64?_eq_some_iff, ← Scalar.uint64OfValue?_of_denotes h hzero]
    rfl
  simp only [hword, ScalarType.admits_between, Scalar.le, decide_eq_true_eq]
  constructor
  · rintro ⟨w, rfl, hbounds⟩
    exact ⟨by omega, by exact_mod_cast hbounds.2⟩
  · rintro ⟨hlow, hhigh⟩
    have hlast := UInt64.toNat_lt high
    have hn : (UInt64.ofNat n.toNat).toNat = n.toNat :=
      UInt64.toNat_ofNat_of_lt' (by simp [UInt64.size]; omega)
    exact ⟨.ofNat n.toNat, by omega, by simp, by omega⟩

end LeafType

/-! ## The number decides -/

namespace ScalarType

variable {n : ℤ} {raw other : Value}

theorem exists_toInt_iff : (∃ w : Int64, w.toInt = n) ↔ -2 ^ 63 ≤ n ∧ n ≤ 2 ^ 63 - 1 := by
  constructor
  · rintro ⟨w, rfl⟩
    have hlow := Int64.le_toInt w
    have hhigh := Int64.toInt_lt w
    omega
  · rintro ⟨hlow, hhigh⟩
    exact ⟨.ofInt n, Int64.toInt_ofInt_of_le hlow (by omega)⟩

theorem exists_toNat_iff : (∃ w : UInt64, (w.toNat : ℤ) = n) ↔ 0 ≤ n ∧ n ≤ 2 ^ 64 - 1 := by
  constructor
  · rintro ⟨w, rfl⟩
    have hhigh := UInt64.toNat_lt w
    omega
  · rintro ⟨hlow, hhigh⟩
    have hn : (UInt64.ofNat n.toNat).toNat = n.toNat :=
      UInt64.toNat_ofNat_of_lt' (by simp [UInt64.size]; omega)
    exact ⟨.ofNat n.toNat, by omega⟩

/-- **Types of whole numbers judge the number, not its form.**  Under any restrictions two forms of
a number have the same outcome, without restrictions a number is accepted exactly if it fits the
base type, and by the types of fixed width exactly if it fits the width.  Unsigned types refuse a
zero with a sign, whatever their restrictions. -/
theorem construct_denoted (hraw : raw.Denotes n) (hother : other.Denotes n) :
    JudgesNumber Int64 (fun w => w.toInt) (-2 ^ 63) (2 ^ 63 - 1) n raw other ∧
    (∀ p ∈ LeafType.signedWidths, (∃ v, p.2.construct raw = .ok (some v)) ↔
      -2 ^ (p.1 - 1) ≤ n ∧ n ≤ 2 ^ (p.1 - 1) - 1) ∧
    (¬ raw.IsNegativeZero → (∀ p ∈ LeafType.unsignedWidths,
      (∃ v, p.2.construct raw = .ok (some v)) ↔
      0 ≤ n ∧ n ≤ 2 ^ p.1 - 1) ∧ (¬ other.IsNegativeZero →
      JudgesNumber UInt64 (fun w => w.toNat) 0 (2 ^ 64 - 1) n raw other)) ∧
    (raw.IsNegativeZero → ∀ type : ScalarType UInt64,
      type.construct raw = .error (.typeMismatch raw.toText "uint64")) := by
  refine ⟨?_, ?_, fun hzero => ⟨?_, fun hzero' => ?_⟩, fun hzero type => ?_⟩
  · exact judgesNumber_of_word (fun _ => Numeral.int64?_eq_some_iff) exists_toInt_iff
      (Scalar.int64OfValue?_of_denotes hraw) (Scalar.int64OfValue?_of_denotes hother)
  · simp only [LeafType.signedWidths, List.forall_mem_cons]
    refine ⟨?_, ?_, ?_, ?_, by simp⟩ <;> exact LeafType.exists_construct_signed hraw
  · simp only [LeafType.unsignedWidths, List.forall_mem_cons]
    refine ⟨?_, ?_, ?_, ?_, by simp⟩ <;> exact LeafType.exists_construct_unsigned hraw hzero
  · exact judgesNumber_of_word (fun _ => Numeral.uint64?_eq_some_iff) exists_toNat_iff
      (Scalar.uint64OfValue?_of_denotes hraw hzero) (Scalar.uint64OfValue?_of_denotes hother hzero')
  · have hform : Scalar.ofValue? (α := UInt64) raw = none :=
      Scalar.uint64OfValue?_of_isNegativeZero hzero
    rw [construct, check, hform]
    rfl

/-- Two hundred as a numeral between blanks and as a decimal: too large for a signed byte. -/
theorem construct_denoted_spelled :
    (Value.text " 200\n").Denotes 200 ∧
    (Value.decimal ⟨false, 20000, 2, by decide, by decide⟩).Denotes 200 ∧
    (¬ ∃ v, LeafType.int8.construct (.text " 200\n") = .ok (some v)) ∧
    (∃ v, LeafType.uint8.construct (.text " 200\n") = .ok (some v)) := by
  have htext : (Value.text " 200\n").Denotes 200 := by
    have hbefore : Text.IsBlanks [' '] := by simp [Text.IsBlanks]; decide
    have hafter : Text.IsBlanks ['\n'] := by simp [Text.IsBlanks]; decide
    exact .text hbefore hafter (by decide +kernel)
  have hdecimal : (Value.decimal ⟨false, 20000, 2, by decide, by decide⟩).Denotes 200 :=
    .decimal (by simp [Decimal.toRat_eq, Decimal.coefficient]; norm_num)
  obtain ⟨-, hsigned, hunsigned, -⟩ := construct_denoted htext hdecimal
  refine ⟨htext, hdecimal, ?_, ?_⟩
  · rw [hsigned (8, LeafType.int8) (by simp [LeafType.signedWidths])]
    decide
  · rw [(hunsigned (fun h => h)).1 (8, LeafType.uint8) (by simp [LeafType.unsignedWidths])]
    decide

/-- A zero with a sign is refused by unsigned types, which accept other forms of zero. -/
theorem not_alike_negative_zero :
    ¬ ∀ (n : ℤ) (raw other : Value), raw.Denotes n → other.Denotes n →
      ∀ type : ScalarType UInt64, Alike (type.construct raw) (type.construct other) := by
  intro h
  have hzero : (Value.int 0).Denotes 0 := .int rfl
  have hsigned : (Value.decimal ⟨true, 0, 28, by decide, by decide⟩).Denotes 0 :=
    .decimal (by simp [Decimal.toRat_eq, Decimal.coefficient])
  have halike := h 0 _ _ hzero hsigned {}
  have haccepted : ({} : ScalarType UInt64).construct (.int 0) = .ok ⟨0, {}⟩ := rfl
  have hrefused : ∃ err, ({} : ScalarType UInt64).construct
      (.decimal ⟨true, 0, 28, by decide, by decide⟩) = .error err := ⟨_, rfl⟩
  obtain ⟨err, hrefused⟩ := hrefused
  rw [haccepted, hrefused] at halike
  cases halike

end ScalarType

end DataTree
