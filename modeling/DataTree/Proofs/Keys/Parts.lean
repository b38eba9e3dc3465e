import DataTree.Leaf.Type
import DataTree.Proofs.Outcome
import DataTree.Proofs.Path.Predicate
import DataTree.Schema

/-!
# DataTree.Proofs.Keys.Parts

Keys, their parts, and what leaf types make of the parts.

A key is its parts joined by single spaces (`intercalate_parts`), and no other texts
in their place join to the same key, whatever spaces they have
(`intercalate_eq_iff`).

A leaf type makes some value of every part that it accepts.  It *keeps* the part if
that value reads as the part again (`LeafType.Keeps`).  Strings are always kept;
numbers only where they are written the way they are read, without blanks, signs and
zeros that do not matter.
-/

namespace DataTree

open Outcome

/-! ## Pieces and what they join to -/

namespace Text

variable {sep : Char → Bool} {c : Char} {as bs cs : List Char} {ls : List (List Char)}

/-- Joining the pieces gives the text back. -/
theorem intercalate_pieces (cs : List Char) : [' '].intercalate (pieces (· == ' ') cs) = cs := by
  induction cs with
  | nil => rfl
  | cons c cs ih =>
    obtain ⟨piece, rest, hp⟩ := List.exists_cons_of_ne_nil (pieces_ne_nil (· == ' ') cs)
    rw [hp] at ih
    by_cases hc : c = ' '
    · rw [hc, pieces_cons_of_sep rfl, hp, List.intercalate_cons_cons, ih]
      rfl
    · have hpieces : pieces (· == ' ') (c :: cs) = consHead c (pieces (· == ' ') cs) := by
        simp [pieces, hc]
      rw [hpieces, hp, consHead]
      cases rest with
      | nil => simpa [List.intercalate] using ih
      | cons piece' rest =>
        rw [List.intercalate_cons_cons] at ih ⊢
        simp [← ih]

/-- Joined texts have at least as many pieces, and are the pieces if there are no more: then
no separator is in any of them. -/
theorem pieces_intercalate (hne : ls ≠ []) :
    ls.length ≤ (pieces (· == ' ') ([' '].intercalate ls)).length ∧
      ((pieces (· == ' ') ([' '].intercalate ls)).length = ls.length →
        pieces (· == ' ') ([' '].intercalate ls) = ls) := by
  have hone : ∀ as : List Char, 1 ≤ (pieces (· == ' ') as).length := fun as =>
    List.length_pos_of_ne_nil (pieces_ne_nil _ as)
  have hself : ∀ as : List Char, (pieces (· == ' ') as).length = 1 →
      pieces (· == ' ') as = [as] := by
    intro as hlen
    obtain ⟨piece, hp⟩ := List.length_eq_one_iff.1 hlen
    have hjoin := intercalate_pieces as
    rw [hp] at hjoin ⊢
    simpa [List.intercalate] using hjoin
  induction ls with
  | nil => exact absurd rfl hne
  | cons as rest ih =>
    cases rest with
    | nil =>
      have has : [' '].intercalate [as] = as := by simp [List.intercalate]
      rw [has]
      exact ⟨hone as, hself as⟩
    | cons bs rest =>
      obtain ⟨hle, heq⟩ := ih (List.cons_ne_nil _ _)
      have hsplit : pieces (· == ' ') ([' '].intercalate (as :: bs :: rest))
          = pieces (· == ' ') as ++ pieces (· == ' ') ([' '].intercalate (bs :: rest)) := by
        rw [List.intercalate_cons_cons, List.append_assoc, List.singleton_append]
        exact pieces_append_cons rfl _ _
      have has := hone as
      rw [hsplit, List.length_append, List.length_cons]
      refine ⟨by omega, fun hlen => ?_⟩
      rw [hself as (by omega), heq (by omega), List.singleton_append]

/-! ## Numerals -/

theorem trim_renderInt (n : Int) : trim (Numeral.renderInt n) = Numeral.renderInt n := by
  refine trim_eq_self fun c hc => ?_
  have hdigit : ∀ {c}, c ∈ Numeral.renderNat n.natAbs → isBlank c = false := fun hc =>
    isBlank_of_isDigit (Numeral.isDigit_of_mem_renderNat hc)
  rw [Numeral.renderInt] at hc
  split at hc
  · obtain rfl | hc := List.mem_cons.1 hc
    · decide
    · exact hdigit hc
  · exact hdigit hc

end Text

/-! ## Keys -/

namespace KeySpec

variable {k : KeySpec} {path key : String} {parts texts : List String}

/-- Either the only part is the whole key, or the parts are the pieces between single spaces. -/
theorem split_cases (h : k.split path key = .ok parts) :
    parts = [key] ∨ parts.map String.toList = Text.pieces (· == ' ') key.toList := by
  rw [split_eq_ok h]
  unfold partsOf
  split
  · exact .inl rfl
  · refine .inr ?_
    rw [List.map_map]
    exact (List.map_congr_left fun cs _ => String.toList_ofList).trans (List.map_id _)

/-- A key is its parts joined by single spaces. -/
theorem intercalate_parts (h : k.split path key = .ok parts) : " ".intercalate parts = key := by
  obtain rfl | hp := split_cases h
  · simp
  · rw [← String.toList_inj, String.toList_intercalate, hp]
    exact Text.intercalate_pieces _

/-- As many texts as there are parts join to the key only if they are the parts. -/
theorem intercalate_eq_iff (h : k.split path key = .ok parts) (hlen : texts.length = parts.length) :
    " ".intercalate texts = key ↔ texts = parts := by
  constructor
  · intro hjoin
    obtain rfl | hp := split_cases h
    · obtain ⟨text, rfl⟩ := List.length_eq_one_iff.1 hlen
      simpa using hjoin
    · have hchars : [' '].intercalate (texts.map String.toList) = key.toList := by
        rw [← hjoin, String.toList_intercalate]
        rfl
      have hsame : (parts.map String.toList).length = (texts.map String.toList).length := by
        rw [List.length_map, List.length_map, hlen]
      have hne : texts.map String.toList ≠ [] := by
        intro hnil
        rw [hnil, hp] at hsame
        exact Text.pieces_ne_nil _ _ (List.length_eq_zero_iff.1 hsame)
      have hpieces := (Text.pieces_intercalate hne).2
      rw [hchars, ← hp] at hpieces
      exact ((List.map_injective_iff.2 fun _ _ => String.toList_inj.1) (hpieces hsame)).symm
  · rintro rfl
    exact intercalate_parts h

end KeySpec

/-! ## Leaf types -/

/-- Numerals are read as what they were written for. -/
theorem Scalar.int64OfValue?_intText (w : Int64) :
    Scalar.int64OfValue? (.text (Numeral.intText w.toInt)) = some w := by
  show (Numeral.readInt? (Text.trim (Numeral.intText w.toInt).toList)).bind Numeral.int64? = some w
  rw [Numeral.intText, String.toList_ofList, Text.trim_renderInt, Numeral.readInt?_renderInt,
    Option.bind_some, Numeral.int64?_toInt]

/-- The value is there, and can be read without looking at a tree. -/
def LeafValue.IsPlain (v : LeafValue) : Prop :=
  v.toValue.isEmpty = false ∧ ∀ path, v ≠ .reference (.pointer path)

namespace LeafType

variable {type : LeafType} {raw : Value} {part : String} {v : LeafValue} {value : Option LeafValue}

/-- The type accepts the part, and the value that it makes of it reads as the part. -/
def Keeps (type : LeafType) (part : String) : Prop :=
  ∃ v, type.construct (.text part) = .ok (some v) ∧ v.toValue.toText = part

theorem construct_eq (hraw : raw.isEmpty = false) (hu : ∀ candidates, type ≠ .union candidates) :
    type.construct raw = (constructPlain raw type).map some := by
  cases type <;> simp_all [construct]

theorem isPlain_of_constructPlain (hraw : raw.isEmpty = false)
    (h : constructPlain raw type = .ok v) :
    v.IsPlain := by
  cases type with
  | text t =>
    obtain ⟨w, -, rfl⟩ := map_eq_ok.1 h
    exact ⟨rfl, by simp⟩
  | int t =>
    obtain ⟨w, -, rfl⟩ := map_eq_ok.1 h
    exact ⟨rfl, by simp⟩
  | uint t =>
    obtain ⟨w, -, rfl⟩ := map_eq_ok.1 h
    exact ⟨rfl, by simp⟩
  | decimal p range =>
    obtain ⟨q, -, h⟩ := bind_eq_ok.1 h
    obtain ⟨_, -, h⟩ := bind_eq_ok.1 h
    obtain rfl := pure_eq_ok.1 h
    exact ⟨rfl, by simp⟩
  | bool =>
    obtain ⟨w, -, rfl⟩ := map_eq_ok.1 h
    exact ⟨rfl, by simp⟩
  | union candidates => cases h
  | reference r =>
    obtain rfl := Except.ok.inj h
    exact ⟨hraw, by simp⟩

mutual

/-- A raw value that is there and accepted gives a value that is there. -/
theorem isPlain_of_construct (hraw : raw.isEmpty = false) :
    ∀ {type : LeafType} {value : Option LeafValue},
    type.construct raw = .ok value → ∃ v, value = some v ∧ v.IsPlain
  | .union candidates, value, h => by
    rw [construct, if_neg (by simp [hraw])] at h
    split at h
    · next v hv =>
      obtain rfl := Except.ok.inj h
      exact ⟨v, rfl, isPlain_of_constructFirst hraw hv⟩
    · cases h
  | .text _, value, h | .int _, value, h | .uint _, value, h | .decimal _ _, value, h
  | .bool, value, h | .reference _, value, h => by
    rw [construct_eq hraw (by simp)] at h
    obtain ⟨v, hv, rfl⟩ := map_eq_ok.1 h
    exact ⟨v, rfl, isPlain_of_constructPlain hraw hv⟩

theorem isPlain_of_constructFirst (hraw : raw.isEmpty = false) :
    ∀ {types : List LeafType} {v : LeafValue},
    constructFirst raw types = some v → v.IsPlain
  | [], v, h => by cases h
  | type :: types, v, h => by
    rw [constructFirst] at h
    split at h
    · next w hw =>
      obtain rfl := Option.some.inj h
      obtain ⟨_, hv, hplain⟩ := isPlain_of_construct hraw hw
      rw [Option.some.inj hv]
      exact hplain
    · exact isPlain_of_constructFirst hraw h

end

/-- Strings are kept as they are. -/
theorem keeps_of_construct_text {t : ScalarType String}
    (h : (text t).construct (.text part) = .ok value) : (text t).Keeps part := by
  obtain ⟨v, rfl, -⟩ := isPlain_of_construct rfl h
  refine ⟨v, h, ?_⟩
  rw [construct_eq rfl (by simp)] at h
  obtain ⟨w, hw, hv⟩ := map_eq_ok.1 h
  obtain rfl := Option.some.inj hv
  obtain ⟨r, hr, rfl⟩ := map_eq_ok.1 hw
  obtain ⟨s, hs, rfl⟩ := map_eq_ok.1 hr
  have hvalue := (ScalarType.check_eq_ok_iff.1 hs).1
  have htext : some part = some s := hvalue
  rw [LeafValue.toValue, Value.toText_text, Option.some.inj htext]

/-- Numbers are kept if they are written as numerals are: without blanks, superfluous zeros
or a plus sign. -/
theorem keeps_int_iff {t : ScalarType Int64} :
    (int t).Keeps part ↔ ∃ w, t.admits w = true ∧ part = Numeral.intText w.toInt := by
  constructor
  · intro h
    obtain ⟨v, hconstruct, htext⟩ := h
    rw [construct_eq rfl (by simp)] at hconstruct
    obtain ⟨v', hv', hv⟩ := map_eq_ok.1 hconstruct
    obtain rfl := Option.some.inj hv
    obtain ⟨r, hr, rfl⟩ := map_eq_ok.1 hv'
    obtain ⟨w, hw, rfl⟩ := map_eq_ok.1 hr
    refine ⟨w, ScalarType.admits_of_check hw, ?_⟩
    rw [← htext, LeafValue.toValue]
    simp only [Value.toText]
  · rintro ⟨w, hw, rfl⟩
    have hvalue : Scalar.ofValue? (.text (Numeral.intText w.toInt)) = some w :=
      Scalar.int64OfValue?_intText w
    have hcheck : t.check (.text (Numeral.intText w.toInt)) = .ok w :=
      ScalarType.check_eq_ok_iff.2 ⟨hvalue, hw⟩
    refine ⟨.int ⟨w, t⟩, ?_, ?_⟩
    · rw [construct_eq rfl (by simp), constructPlain, ScalarType.construct, hcheck]
      rfl
    · rw [LeafValue.toValue]
      simp only [Value.toText]

end LeafType

end DataTree
