import DataTree.Proofs.Decimal.Reader
import DataTree.Proofs.Range.Written
import DataTree.Proofs.Typing.Again

/-!
# DataTree.Proofs.Range.ReadBack

The numeric types are written as range expressions need them.

Numbers are written with digits, a minus sign and, in decimals, one point that digits follow;
so nothing in them looks like a blank, a bar or the two points of an interval
(`numeric_of_chars`).  They are read as what they are, decimals by value.
-/

namespace DataTree

namespace Range

open Text

/-- A number has no bars and no blanks in it, as long as it has digits, points and signs only. -/
theorem numeric_of_chars {α : Type} [Scalar α] {number : α → ℚ}
    (hnumeric : Scalar.isNumeric α = true)
    (hle : ∀ a b : α, Scalar.le a b = true ↔ number a ≤ number b)
    (hread : ∀ a : α, ∃ x : α, Scalar.read? (chars a) = some x ∧ number x = number a)
    (hne : ∀ a : α, chars a ≠ []) (hapart : ∀ a : α, Apart (chars a))
    (hchars : ∀ a : α, ∀ c ∈ chars a, c = '-' ∨ c = '.' ∨ c.isDigit = true) : Numeric number where
  isNumeric := hnumeric
  le_iff := hle
  exists_read? := hread
  ne_nil := hne
  not_blank a c hc := by
    obtain rfl | rfl | hdigit := hchars a c hc
    · decide
    · decide
    · exact isBlank_of_isDigit hdigit
  no_bar a hbar := by simpa using hchars a '|' hbar
  apart := hapart

theorem eq_or_isDigit_of_mem_renderInt {n : ℤ} {c : Char} (h : c ∈ Numeral.renderInt n) :
    c = '-' ∨ c.isDigit = true := by
  unfold Numeral.renderInt at h
  split at h
  · exact (List.mem_cons.1 h).imp_right Numeral.isDigit_of_mem_renderNat
  · exact .inr (Numeral.isDigit_of_mem_renderNat h)

theorem numeric_int64 : Numeric fun w : Int64 => (w.toInt : ℚ) := by
  have hchars : ∀ w : Int64, chars w = Numeral.renderInt w.toInt := fun w => String.toList_ofList
  refine numeric_of_chars rfl (fun a b => ?_) (fun w => ⟨w, ?_, rfl⟩) (fun w => ?_)
    (fun w => ?_) fun w c hc => ?_
  · simp [Scalar.le]
  · exact Scalar.int64OfValue?_intText w
  · rw [hchars, Numeral.renderInt]
    split
    · exact List.cons_ne_nil _ _
    · exact Numeral.renderNat_ne_nil _
  · refine apart_of_not_mem fun hpoint => ?_
    rw [hchars] at hpoint
    simpa using eq_or_isDigit_of_mem_renderInt hpoint
  · rw [hchars] at hc
    exact (eq_or_isDigit_of_mem_renderInt hc).imp_right .inr

theorem numeric_uint64 : Numeric fun w : UInt64 => (w.toNat : ℚ) := by
  have hchars : ∀ w : UInt64, chars w = Numeral.renderNat w.toNat := fun w => String.toList_ofList
  refine numeric_of_chars rfl (fun a b => ?_) (fun w => ⟨w, ?_, rfl⟩) (fun w => ?_)
    (fun w => ?_) fun w c hc => ?_
  · simp [Scalar.le]
  · have htrim : trim (Numeral.renderNat w.toNat) = Numeral.renderNat w.toNat :=
      trim_eq_self fun c hc => isBlank_of_isDigit (Numeral.isDigit_of_mem_renderNat hc)
    rw [hchars]
    simp [Scalar.read?, Scalar.readUInt64?, htrim, Numeral.readUnsigned?_renderNat,
      Numeral.uint64?_toNat]
  · rw [hchars]
    exact Numeral.renderNat_ne_nil _
  · refine apart_of_not_mem fun hpoint => ?_
    rw [hchars] at hpoint
    simpa using Numeral.isDigit_of_mem_renderNat hpoint
  · rw [hchars] at hc
    exact .inr (.inr (Numeral.isDigit_of_mem_renderNat hc))

/-- The point of a decimal has digits behind it. -/
theorem apart_render (d : Decimal) : Apart d.render := by
  have hwhole : Apart ((if d.negative then ['-'] else []) ++
      Numeral.renderNat (d.magnitude / Nat.pow 10 d.scale)) := by
    refine apart_of_not_mem fun hpoint => ?_
    rcases List.mem_append.1 hpoint with hpoint | hpoint
    · split at hpoint <;> simp at hpoint
    · simpa using Numeral.isDigit_of_mem_renderNat hpoint
  refine hwhole.append ?_
  split
  · exact apart_of_not_mem List.not_mem_nil
  · next hscale =>
    refine apart_point (fun hnil => hscale ?_) fun hpoint => ?_
    · simpa using congrArg List.length hnil
    · simpa using Numeral.isDigit_of_mem_fixedDigits hpoint

theorem numeric_decimal : Numeric Decimal.toRat := by
  have hchars : ∀ d : Decimal, chars d = d.render := fun d => String.toList_ofList
  refine numeric_of_chars rfl (fun _ _ => Decimal.le_iff_toRat) (fun d => ?_)
    (fun d => ?_) (fun d => ?_) fun d c hc => ?_
  · obtain ⟨w, hw, hrat⟩ := d.exists_read?_render
    refine ⟨w, ?_, hrat⟩
    rw [hchars]
    simp [Scalar.read?, Scalar.readDecimal?, Decimal.trim_render, hw]
  · rw [hchars]
    simp [Decimal.render, Numeral.renderNat_ne_nil]
  · rw [hchars]
    exact apart_render d
  · rw [hchars] at hc
    exact Decimal.eq_or_isDigit_of_mem_render hc

/-- **Range expressions are read back** for words with and without a sign, and for decimals by
their values: reading one succeeds exactly if no interval is inverted, the range then contains
exactly the values in the intervals, and a range between two values is what its source reads as. -/
theorem readsBack_numbers :
    ReadsBack (fun w : Int64 => (w.toInt : ℚ)) ∧ ReadsBack (fun w : UInt64 => (w.toNat : ℚ)) ∧
      ReadsBack Decimal.toRat :=
  ⟨numeric_int64.readsBack, numeric_uint64.readsBack, numeric_decimal.readsBack⟩

/-- The points of the bounds are not taken for the two between them. -/
example : (read " -1.5 ..-0.5 | 3" : Except Error (Range Decimal)).map
    (fun r => [⟨true, 100, 2, by decide, by decide⟩,
      ⟨false, 2, 0, by decide, by decide⟩].map r.contains)
    = .ok [true, false] := by rfl

end Range

end DataTree
