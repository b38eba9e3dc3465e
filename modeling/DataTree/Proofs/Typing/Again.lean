import DataTree.Proofs.Keys.Parts
import DataTree.Proofs.Typing.Values

/-!
# DataTree.Proofs.Typing.Again

What a list of types makes of a form that it has made itself.

The first type that accepts a value decides its form, a union by its candidates.  In that
form the value is accepted once more by the same type, which leaves it as it is
(`made?_toValue`).  A type further in front that has refused the raw value may accept its
form, though: names such as `5` do not include the text ` 5`, but they do include the
number that an integer type makes of it.  Types that keep clear of those behind them
(`KeepsClear`) do not.
-/

namespace DataTree

open Outcome

namespace LeafType

/-! ## Candidates -/

mutual

/-- The types that a value is tried on, the candidates of a union in its place. -/
def candidates : LeafType → List LeafType
  | union types => candidatesOf types
  | t => [t]

/-- The same for the types of a list. -/
def candidatesOf : List LeafType → List LeafType
  | [] => []
  | t :: ts => candidates t ++ candidatesOf ts

end

/-- What a type without candidates makes of a value, if it accepts it. -/
def made? (raw : Value) (t : LeafType) : Option LeafValue := (constructPlain raw t).toOption

variable {raw : Value} {t earlier later : LeafType} {v w : LeafValue}

theorem made?_eq_some_iff : made? raw t = some v ↔ constructPlain raw t = .ok v := by
  rw [made?]
  cases constructPlain raw t <;> simp [Except.toOption]

/-- A type without candidates is the only one that is tried. -/
theorem findSome?_singleton :
    (constructPlain raw t).map some = .ok (some v) ↔ [t].findSome? (made? raw) = some v := by
  rw [map_eq_ok, List.findSome?_singleton, made?_eq_some_iff]
  simp

mutual

theorem construct_eq_some_iff (hraw : raw.isEmpty = false) : ∀ {t : LeafType} {v : LeafValue},
    construct raw t = .ok (some v) ↔ (candidates t).findSome? (made? raw) = some v
  | .union types, v => by
    rw [construct, if_neg (by simp [hraw]), constructFirst_eq hraw, candidates]
    cases (candidatesOf types).findSome? (made? raw) <;> simp
  | .text _, v =>
    by rw [construct, if_neg (by simp [hraw]), candidates, findSome?_singleton] <;> simp
  | .int _, v =>
    by rw [construct, if_neg (by simp [hraw]), candidates, findSome?_singleton] <;> simp
  | .uint _, v =>
    by rw [construct, if_neg (by simp [hraw]), candidates, findSome?_singleton] <;> simp
  | .decimal _ _, v => by
    rw [construct, if_neg (by simp [hraw]), candidates, findSome?_singleton] <;> simp
  | .bool, v => by rw [construct, if_neg (by simp [hraw]), candidates, findSome?_singleton] <;> simp
  | .reference _, v => by
    rw [construct, if_neg (by simp [hraw]), candidates, findSome?_singleton] <;> simp

/-- The first candidate that accepts a value decides its form. -/
theorem constructFirst_eq (hraw : raw.isEmpty = false) : ∀ types : List LeafType,
    constructFirst raw types = (candidatesOf types).findSome? (made? raw)
  | [] => by rw [constructFirst, candidatesOf, List.findSome?_nil]
  | t :: types => by
    rw [constructFirst, candidatesOf, List.findSome?_append, ← constructFirst_eq hraw types]
    have hiff := fun v => construct_eq_some_iff hraw (t := t) (v := v)
    cases hfirst : (candidates t).findSome? (made? raw) with
    | some v => rw [(hiff v).2 hfirst, Option.some_or]
    | none =>
      rw [Option.none_or]
      split
      · next v hv => simp [(hiff v).1 hv] at hfirst
      · rfl

end

/-- An absent value has no form. -/
theorem constructFirst_empty (types : List LeafType) : constructFirst .empty types = none := by
  induction types with
  | nil => rw [constructFirst]
  | cons t types ih => rw [constructFirst, construct_empty, ih]

/-! ## The form of a form -/

/-- A value that was made is made again of anything that reads as it. -/
theorem construct_of_scalar {α : Type} [Scalar α] {type : ScalarType α} {s : Restricted α}
    (h : type.construct raw = .ok s) {again : Value}
    (hagain : Scalar.ofValue? again = some s.value) :
    type.construct again = .ok s := by
  obtain ⟨a, ha, rfl⟩ := map_eq_ok.1 h
  have hcheck : type.check again = .ok a :=
    ScalarType.check_eq_ok_iff.2 ⟨hagain, ScalarType.admits_of_check ha⟩
  rw [ScalarType.construct, hcheck]
  rfl

theorem ofValue?_of_construct {α : Type} [Scalar α] {type : ScalarType α} {s : Restricted α}
    (h : type.construct raw = .ok s) : Scalar.ofValue? raw = some s.value := by
  obtain ⟨a, ha, rfl⟩ := map_eq_ok.1 h
  exact (ScalarType.check_eq_ok_iff.1 ha).1

/-- A type that accepts a form accepts the raw value if that has the same scalar. -/
theorem exists_of_form {α : Type} [Scalar α] {type : ScalarType α} {f : Restricted α → LeafValue}
    {form : Value} (h : (type.construct form).map f = .ok v)
    (hform : ∀ b : α, Scalar.ofValue? form = some b → Scalar.ofValue? raw = some b) :
    ∃ u, (type.construct raw).map f = .ok u := by
  obtain ⟨b, hb, -⟩ := map_eq_ok.1 h
  exact ⟨_, map_eq_ok.2 ⟨b, construct_of_scalar hb (hform _ (ofValue?_of_construct hb)), rfl⟩⟩

/-- A number that was rounded is not rounded any more. -/
theorem fix_again {p : Precision} {raw : Value} {q : FixedDecimal} (h : p.construct raw = .ok q) :
    p.construct (.decimal q.value) = .ok q := by
  obtain ⟨hscale, hdigits⟩ := Precision.scale_of_construct h
  exact Precision.construct_of_scale hscale hdigits

/-- **A type leaves the form that it has made as it is.** -/
theorem made?_toValue (h : made? raw t = some v) : made? v.toValue t = some v := by
  rw [made?_eq_some_iff] at h ⊢
  cases t with
  | text type =>
    obtain ⟨s, hs, rfl⟩ := map_eq_ok.1 h
    exact map_eq_ok.2 ⟨s, construct_of_scalar hs rfl, rfl⟩
  | int type =>
    obtain ⟨s, hs, rfl⟩ := map_eq_ok.1 h
    exact map_eq_ok.2 ⟨s, construct_of_scalar hs rfl, rfl⟩
  | uint type =>
    obtain ⟨s, hs, rfl⟩ := map_eq_ok.1 h
    exact map_eq_ok.2 ⟨s, construct_of_scalar hs rfl, rfl⟩
  | decimal p range =>
    obtain ⟨q, hq, h⟩ := bind_eq_ok.1 h
    obtain ⟨d, hd, h⟩ := bind_eq_ok.1 h
    obtain rfl := pure_eq_ok.1 h
    exact bind_eq_ok.2 ⟨q, fix_again hq, bind_eq_ok.2 ⟨d, hd, rfl⟩⟩
  | bool =>
    obtain ⟨b, -, rfl⟩ := map_eq_ok.1 h
    rfl
  | union types => cases h
  | reference r =>
    obtain rfl := Except.ok.inj h
    rfl

/-- A form is not absent. -/
theorem isEmpty_toValue (hraw : raw.isEmpty = false) (h : made? raw t = some v) :
    v.toValue.isEmpty = false := by
  rw [made?_eq_some_iff] at h
  cases t with
  | decimal p range =>
    obtain ⟨q, -, h⟩ := bind_eq_ok.1 h
    obtain ⟨d, -, h⟩ := bind_eq_ok.1 h
    obtain rfl := pure_eq_ok.1 h
    rfl
  | union types => cases h
  | reference r =>
    obtain rfl := Except.ok.inj h
    exact hraw
  | text _ | int _ | uint _ | bool =>
    obtain ⟨s, -, rfl⟩ := map_eq_ok.1 h
    rfl

end LeafType

/-! ## Numbers in texts -/

namespace Numeral

variable {cs : List Char}

theorem not_mem_of_readDigits? {c : Char} (hc : digit? c = none) {m n : Nat}
    (h : readDigits? m cs = some n) : c ∉ cs := fun hmem => by
  simpa [hc] using isSome_digit?_of_mem h hmem

theorem dot_not_mem_of_readNat? {n : Nat} (h : readNat? cs = some n) : '.' ∉ cs := by
  cases cs with
  | nil => cases h
  | cons c cs => exact not_mem_of_readDigits? (by decide) h

theorem dot_not_mem_of_readUnsigned? {n : Nat} (h : readUnsigned? cs = some n) : '.' ∉ cs := by
  unfold readUnsigned? at h
  split at h
  · exact List.not_mem_cons_of_ne_of_not_mem (by decide) (dot_not_mem_of_readNat? h)
  · exact dot_not_mem_of_readNat? h

/-- A numeral of a whole number has no point. -/
theorem dot_not_mem_of_readInt? {n : Int} (h : readInt? cs = some n) : '.' ∉ cs := by
  unfold readInt? at h
  split at h
  · obtain ⟨m, hm, -⟩ := Option.map_eq_some_iff.1 h
    obtain ⟨k, hk, -⟩ := Option.bind_eq_some_iff.1 hm
    exact List.not_mem_cons_of_ne_of_not_mem (by decide) (dot_not_mem_of_readNat? hk)
  · obtain ⟨m, hm, -⟩ := Option.map_eq_some_iff.1 h
    exact dot_not_mem_of_readUnsigned? hm

theorem renderInt_natCast (n : Nat) : renderInt n = renderNat n := by
  rw [renderInt, if_neg (by omega), Int.natAbs_natCast]

/-- Without a sign only a number that is not below zero is written. -/
theorem readUnsigned?_renderInt (n : Int) :
    readUnsigned? (renderInt n) = if n < 0 then none else some n.toNat := by
  rw [renderInt]
  split
  · rfl
  · rw [readUnsigned?_renderNat]
    congr 1
    omega

end Numeral

namespace Decimal

variable {d : Decimal}

/-- The characters that decimals are written with. -/
theorem eq_or_isDigit_of_mem_render {c : Char} (hc : c ∈ d.render) :
    c = '-' ∨ c = '.' ∨ c.isDigit = true := by
  simp only [render, List.mem_append] at hc
  obtain (hc | hc) | hc := hc
  · split at hc
    · exact .inl (List.mem_singleton.1 hc)
    · cases hc
  · exact .inr (.inr (Numeral.isDigit_of_mem_renderNat hc))
  · split at hc
    · cases hc
    · exact .inr ((List.mem_cons.1 hc).imp_right Numeral.isDigit_of_mem_fixedDigits)

theorem isBlank_of_mem_render {c : Char} (hc : c ∈ d.render) : Text.isBlank c = false := by
  obtain rfl | rfl | hc := eq_or_isDigit_of_mem_render hc
  · decide
  · decide
  · exact Text.isBlank_of_isDigit hc

/-- A written number has no blanks around it. -/
theorem trim_render (d : Decimal) : Text.trim d.render = d.render :=
  Text.trim_eq_self fun _ hc => isBlank_of_mem_render hc

theorem scale_eq_zero (h : '.' ∉ d.render) : d.scale = 0 := by
  by_contra hscale
  exact h (by simp [render, hscale])

/-- A whole number is written as its digits. -/
theorem render_of_whole (h : d.scale = 0) :
    d.render = (if d.negative then ['-'] else []) ++ Numeral.renderNat d.magnitude := by
  simp [render, h]

/-- A decimal whose text is that of a whole number is whole. -/
theorem toInt?_of_render {n : Int} (h : Numeral.readInt? d.render = some n) :
    d.toInt? = some n := by
  have hscale := scale_eq_zero (Numeral.dot_not_mem_of_readInt? h)
  have hwhole : d.toInt? = some d.coefficient := by simp [toInt?, hscale]
  rw [render_of_whole hscale] at h
  rw [hwhole, coefficient]
  cases hneg : d.negative with
  | true =>
    rw [hneg, if_pos rfl, List.singleton_append, Numeral.readInt?, Numeral.readNat?_renderNat] at h
    simpa using h
  | false =>
    rw [hneg, if_neg (by decide), List.nil_append, ← Numeral.renderInt_natCast,
      Numeral.readInt?_renderInt] at h
    simpa using h

/-- A written number reads as itself. -/
theorem toNat?_of_render {n : Nat} (h : Numeral.readUnsigned? d.render = some n) :
    d.toNat? = some n := by
  have hscale := scale_eq_zero (Numeral.dot_not_mem_of_readUnsigned? h)
  rw [render_of_whole hscale] at h
  cases hneg : d.negative with
  | true =>
    rw [hneg, if_pos rfl, List.singleton_append] at h
    cases h
  | false =>
    rw [hneg, if_neg (by decide), List.nil_append, Numeral.readUnsigned?_renderNat] at h
    simpa [toNat?, hscale, hneg, Nat.mod_one] using h

end Decimal

namespace Scalar

variable {raw : Value} {s : String}

/-- What reads as a signed word is one. -/
theorem int64OfValue?_of_text {n : Int64} (hs : stringOfValue? raw = some s)
    (hn : int64OfValue? (.text s) = some n) : int64OfValue? raw = some n := by
  cases raw with
  | empty | list _ | map _ => cases hs
  | text _ =>
    obtain rfl := Option.some.inj hs
    rwa [Value.toText_text] at hn
  | bool b =>
    obtain rfl := Option.some.inj hs
    have hword : int64OfValue? (.text (Value.bool b).toText) = none := by cases b <;> decide +kernel
    rw [hword] at hn
    cases hn
  | int m =>
    obtain rfl := Option.some.inj hs
    rw [Value.toText, int64OfValue?_intText] at hn
    exact hn
  | uint m =>
    obtain rfl := Option.some.inj hs
    simp only [int64OfValue?, readInt64?, Value.toText, Numeral.intText, String.toList_ofList,
      Text.trim_renderInt, Numeral.readInt?_renderInt, Option.bind_some] at hn
    exact hn
  | decimal d =>
    obtain rfl := Option.some.inj hs
    simp only [int64OfValue?, readInt64?, Value.toText, Decimal.text, String.toList_ofList,
      Decimal.trim_render] at hn
    obtain ⟨z, hz, hn⟩ := Option.bind_eq_some_iff.1 hn
    rw [int64OfValue?, Decimal.toInt?_of_render hz, Option.bind_some, hn]

/-- What reads as an unsigned word is one. -/
theorem uint64OfValue?_of_text {n : UInt64} (hs : stringOfValue? raw = some s)
    (hn : uint64OfValue? (.text s) = some n) : uint64OfValue? raw = some n := by
  cases raw with
  | empty | list _ | map _ => cases hs
  | text _ =>
    obtain rfl := Option.some.inj hs
    rwa [Value.toText_text] at hn
  | bool b =>
    obtain rfl := Option.some.inj hs
    have hword : uint64OfValue? (.text (Value.bool b).toText) = none := by
      cases b <;> decide +kernel
    rw [hword] at hn
    cases hn
  | int m =>
    obtain rfl := Option.some.inj hs
    simp only [uint64OfValue?, readUInt64?, Value.toText, Numeral.intText, String.toList_ofList,
      Text.trim_renderInt, Numeral.readUnsigned?_renderInt] at hn
    split at hn
    · cases hn
    · next hneg =>
      rw [Option.bind_some, Int.toNat_of_nonneg (by omega)] at hn
      exact hn
  | uint m =>
    obtain rfl := Option.some.inj hs
    simp only [uint64OfValue?, readUInt64?, Value.toText, Numeral.intText, String.toList_ofList,
      Text.trim_renderInt, Numeral.readUnsigned?_renderInt,
      if_neg (Int.not_lt.2 (Int.natCast_nonneg _)),
      Int.toNat_natCast, Option.bind_some, Numeral.uint64?_toNat] at hn
    exact hn
  | decimal d =>
    obtain rfl := Option.some.inj hs
    simp only [uint64OfValue?, readUInt64?, Value.toText, Decimal.text, String.toList_ofList,
      Decimal.trim_render] at hn
    obtain ⟨z, hz, hn⟩ := Option.bind_eq_some_iff.1 hn
    rw [uint64OfValue?, Decimal.toNat?_of_render hz, Option.bind_some, hn]

end Scalar

/-! ## Types that keep clear of those behind them -/

namespace LeafType

/-- Pairs of types of which the first refuses a value also in the form that the second
makes of it. -/
inductive KeepsClear : LeafType → LeafType → Prop
  /-- A reference keeps values as they come. -/
  | verbatim (t : LeafType) (r : ReferenceType) : KeepsClear t (reference r)
  /-- A reference refuses nothing. -/
  | anything (r : ReferenceType) (t : LeafType) : KeepsClear (reference r) t
  /-- What has no text is for references only. -/
  | string (t : LeafType) : KeepsClear string t
  | text (t u : ScalarType String) : KeepsClear (text t) (text u)
  | int (t u : ScalarType Int64) : KeepsClear (int t) (int u)
  /-- A text is the numeral of a number only if it was one before. -/
  | intText (t : ScalarType Int64) (u : ScalarType String) : KeepsClear (int t) (text u)
  | uint (t u : ScalarType UInt64) : KeepsClear (uint t) (uint u)
  | uintText (t : ScalarType UInt64) (u : ScalarType String) : KeepsClear (uint t) (text u)
  | decimal (p : Precision) (t u : ScalarType Decimal) : KeepsClear (decimal p t) (decimal p u)
  | bool : KeepsClear bool bool

variable {raw : Value} {earlier later : LeafType} {v w : LeafValue}

/-- Only a reference accepts what has no text. -/
theorem exists_text_of_made? (hraw : raw.isEmpty = false) (hlater : ∀ r, later ≠ reference r)
    (h : made? raw later = some v) : ∃ s, Scalar.stringOfValue? raw = some s := by
  cases raw with
  | empty => cases hraw
  | list _ | map _ =>
    cases later with
    | reference r => exact absurd rfl (hlater r)
    | text _ | int _ | uint _ | decimal _ _ | bool | union _ => cases h
  | bool _ | int _ | uint _ | decimal _ | text _ => exact ⟨_, rfl⟩

/-- **Whatever keeps clear accepts a form only if it has accepted the raw value.** -/
theorem KeepsClear.exists_made? (hclear : KeepsClear earlier later) (hraw : raw.isEmpty = false)
    (hlater : made? raw later = some v) (hearlier : made? v.toValue earlier = some w) :
    ∃ u, made? raw earlier = some u := by
  by_cases href : ∃ r, later = reference r
  · obtain ⟨r, rfl⟩ := href
    obtain rfl := Except.ok.inj (made?_eq_some_iff.1 hlater)
    exact ⟨w, hearlier⟩
  have hlater' := made?_eq_some_iff.1 hlater
  rw [made?_eq_some_iff] at hearlier
  simp only [made?_eq_some_iff]
  cases hclear with
  | verbatim t r => exact absurd ⟨r, rfl⟩ href
  | anything r t => exact ⟨_, rfl⟩
  | string t =>
    obtain ⟨s, hs⟩ := exists_text_of_made? hraw (fun r hr => href ⟨r, hr⟩) hlater
    have hcheck : ({} : ScalarType String).check raw = .ok s :=
      ScalarType.check_eq_ok_iff.2 ⟨hs, rfl⟩
    exact ⟨_, map_eq_ok.2 ⟨⟨s, {}⟩, map_eq_ok.2 ⟨s, hcheck, rfl⟩, rfl⟩⟩
  | text t u =>
    obtain ⟨a, ha, rfl⟩ := map_eq_ok.1 hlater'
    exact exists_of_form hearlier fun b hb => (ofValue?_of_construct ha).trans hb
  | int t u =>
    obtain ⟨a, ha, rfl⟩ := map_eq_ok.1 hlater'
    exact exists_of_form hearlier fun b hb => (ofValue?_of_construct ha).trans hb
  | intText t u =>
    obtain ⟨a, ha, rfl⟩ := map_eq_ok.1 hlater'
    exact exists_of_form hearlier fun b hb =>
      Scalar.int64OfValue?_of_text (ofValue?_of_construct ha) hb
  | uint t u =>
    obtain ⟨a, ha, rfl⟩ := map_eq_ok.1 hlater'
    exact exists_of_form hearlier fun b hb => (ofValue?_of_construct ha).trans hb
  | uintText t u =>
    obtain ⟨a, ha, rfl⟩ := map_eq_ok.1 hlater'
    exact exists_of_form hearlier fun b hb =>
      Scalar.uint64OfValue?_of_text (ofValue?_of_construct ha) hb
  | decimal p t u =>
    obtain ⟨q, hq, h⟩ := bind_eq_ok.1 hlater'
    obtain ⟨_, -, h⟩ := bind_eq_ok.1 h
    obtain rfl := pure_eq_ok.1 h
    obtain ⟨q', hq', h⟩ := bind_eq_ok.1 hearlier
    -- the precision has left the decimal as it is
    obtain rfl := Except.ok.inj ((fix_again hq).symm.trans hq')
    exact ⟨w, bind_eq_ok.2 ⟨q, hq, h⟩⟩
  | bool => exact ⟨v, hlater'⟩

end LeafType

/-! ## Lists of types -/

namespace LeafListType

open LeafType

variable {type : LeafListType} {raw item again : Value}

/-- Every candidate keeps clear of those behind it. -/
def IsClear (type : LeafListType) : Prop := (candidatesOf type.allowed).Pairwise KeepsClear

theorem check_eq_ok_iff : type.check raw = .ok item ↔ raw.isEmpty = false ∧
    ∃ v, (candidatesOf type.allowed).findSome? (made? raw) = some v ∧ v.toValue = item := by
  rw [check]
  cases hraw : raw.isEmpty with
  | true =>
    cases raw <;> cases hraw
    rw [constructFirst_empty]
    simp
  | false =>
    rw [constructFirst_eq hraw]
    cases (candidatesOf type.allowed).findSome? (made? raw) <;> simp

/-- What has been accepted is accepted again. -/
theorem exists_check_again (h : type.check raw = .ok item) :
    ∃ again, type.check item = .ok again := by
  obtain ⟨hraw, v, hv, rfl⟩ := check_eq_ok_iff.1 h
  obtain ⟨front, t, behind, htypes, ht, -⟩ := List.findSome?_eq_some_iff.1 hv
  have hsome : ((candidatesOf type.allowed).findSome? (made? v.toValue)).isSome = true := by
    rw [List.findSome?_isSome_iff]
    exact ⟨t, htypes ▸ List.mem_append_right _ List.mem_cons_self, by rw [made?_toValue ht]; rfl⟩
  obtain ⟨w, hw⟩ := Option.isSome_iff_exists.1 hsome
  exact ⟨_, check_eq_ok_iff.2 ⟨isEmpty_toValue hraw ht, w, hw, rfl⟩⟩

/-- **Types that keep clear leave every form that they have made as it is.** -/
theorem IsClear.check_again (hclear : type.IsClear) (h : type.check raw = .ok item) :
    type.check item = .ok item := by
  obtain ⟨hraw, v, hv, rfl⟩ := check_eq_ok_iff.1 h
  obtain ⟨front, t, behind, htypes, ht, hfront⟩ := List.findSome?_eq_some_iff.1 hv
  rw [IsClear, htypes, List.pairwise_append] at hclear
  refine check_eq_ok_iff.2 ⟨isEmpty_toValue hraw ht, v, List.findSome?_eq_some_iff.2
    ⟨front, t, behind, htypes, made?_toValue ht, fun earlier hmem => ?_⟩, rfl⟩
  -- a type in front that accepted the form would have accepted the raw value
  cases hagain : made? v.toValue earlier with
  | none => rfl
  | some w =>
    obtain ⟨u, hu⟩ :=
      (hclear.2.2 earlier hmem t List.mem_cons_self).exists_made? hraw ht hagain
    rw [hfront earlier hmem] at hu
    cases hu

end LeafListType

end DataTree
