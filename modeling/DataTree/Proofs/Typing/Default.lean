import DataTree.Proofs.Accept.Session
import DataTree.Proofs.Decimal.Precision
import DataTree.Proofs.Tracking.Raised
import DataTree.Proofs.Typing.Again

/-!
# DataTree.Proofs.Typing.Default

Defaults are kept as they are declared.

A default has to be one that the type of the leaf accepts, but what the type would make of it
is not kept: an unset leaf reads as the default itself.  An assignment of the same value is
kept as what the type makes of it.  The two agree exactly if the default is *native* to the
type, in the form that the type gives to its values (`LeafType.Native`), and then only does an
element that already holds what the type makes of its default count as unchanged
(`default_native_iff`).
-/

namespace DataTree

open Edit Outcome

namespace LeafType

variable {raw : Value} {t type : LeafType} {v : LeafValue}

/-! ## The form of values -/

/-- Whether a raw value has the form that a type without candidates gives to its values: texts,
words and truth values as such, and decimals without any digits that would be rounded off. -/
def IsForm : LeafType → Value → Prop
  | text _, .text _ | int _, .int _ | uint _, .uint _ | bool, .bool _ => True
  | decimal p _, .decimal d => Decimal.roundEven p.digits d.toRat = d.toRat
  | _, _ => False

/-- Whether a raw value has the form that a type gives to it already.  In a union the first
candidate that accepts it decides. -/
def Native (type : LeafType) (raw : Value) : Prop :=
  ∃ t, type.candidates.find? (fun t => (made? raw t).isSome) = some t ∧ t.IsForm raw

/-- A type without candidates makes of a value what it is exactly if it has the form. -/
theorem same_iff_isForm (h : made? raw t = some v) (hplain : ∀ r, t ≠ reference r) :
    v.toValue.same raw = true ↔ t.IsForm raw := by
  rw [made?_eq_some_iff] at h
  cases t with
  | text type =>
    obtain ⟨s, hs, rfl⟩ := map_eq_ok.1 h
    have hvalue := ofValue?_of_construct hs
    cases raw <;>
      simp_all [IsForm, LeafValue.toValue, Value.same, Scalar.ofValue?, Scalar.stringOfValue?,
        Value.toText]
  | int type =>
    obtain ⟨s, hs, rfl⟩ := map_eq_ok.1 h
    have hvalue := ofValue?_of_construct hs
    cases raw <;> simp_all [IsForm, LeafValue.toValue, Value.same, Scalar.ofValue?,
      Scalar.int64OfValue?]
  | uint type =>
    obtain ⟨s, hs, rfl⟩ := map_eq_ok.1 h
    have hvalue := ofValue?_of_construct hs
    cases raw <;> simp_all [IsForm, LeafValue.toValue, Value.same, Scalar.ofValue?,
      Scalar.uint64OfValue?]
  | decimal p range =>
    obtain ⟨q, hq, h⟩ := bind_eq_ok.1 h
    obtain ⟨_, -, h⟩ := bind_eq_ok.1 h
    obtain rfl := pure_eq_ok.1 h
    cases raw with
    | decimal d =>
      have hrat : q.value.toRat = Decimal.roundEven p.digits d.toRat := Precision.toRat_of_fix hq
      simp only [LeafValue.toValue, Value.same, IsForm, Decimal.same_iff_toRat, hrat]
    | _ => simp [IsForm, LeafValue.toValue, Value.same]
  | bool =>
    obtain ⟨b, hb, rfl⟩ := map_eq_ok.1 h
    cases raw <;> simp_all [IsForm, LeafValue.toValue, Value.same, Boolean.read, Boolean.ofValue?]
  | union types => cases h
  | reference r => exact absurd rfl (hplain r)

mutual

/-- Where no reference is involved none is tried. -/
theorem not_reference_of_mem_candidates : ∀ {type : LeafType}, type.involvesReference = false →
    t ∈ type.candidates → ∀ r, t ≠ reference r
  | .union types, h, ht => by
    rw [candidates] at ht
    rw [involvesReference] at h
    exact not_reference_of_mem_candidatesOf h ht
  | .reference _, h, _ => by
    rw [involvesReference] at h
    cases h
  | .text _, _, ht | .int _, _, ht | .uint _, _, ht | .decimal _ _, _, ht | .bool, _, ht => by
    rintro r rfl
    simp [candidates] at ht

theorem not_reference_of_mem_candidatesOf :
    ∀ {types : List LeafType}, anyInvolvesReference types = false →
    t ∈ candidatesOf types → ∀ r, t ≠ reference r
  | [], _, ht => by
    rw [candidatesOf] at ht
    cases ht
  | type :: types, h, ht => by
    rw [candidatesOf, List.mem_append] at ht
    rw [anyInvolvesReference, Bool.or_eq_false_iff] at h
    exact ht.elim (not_reference_of_mem_candidates h.1) (not_reference_of_mem_candidatesOf h.2)

end

/-- The first type that makes something of a value. -/
theorem exists_find?_of_findSome? {types : List LeafType}
    (h : types.findSome? (made? raw) = some v) :
    ∃ t, types.find? (fun t => (made? raw t).isSome) = some t ∧ made? raw t = some v := by
  induction types with
  | nil => cases h
  | cons t types ih =>
    rw [List.findSome?_cons] at h
    cases hmade : made? raw t with
    | some w =>
      rw [hmade] at h
      exact ⟨t, by simp [hmade], hmade.trans h⟩
    | none =>
      rw [hmade] at h
      obtain ⟨s, hs, hsv⟩ := ih h
      exact ⟨s, by simpa [hmade] using hs, hsv⟩

/-- A type makes of a value what it is exactly if that is native to it. -/
theorem same_iff_native (hplain : type.involvesReference = false) (hraw : raw.isEmpty = false)
    (h : type.construct raw = .ok (some v)) : v.toValue.same raw = true ↔ type.Native raw := by
  obtain ⟨t, ht, hmade⟩ := exists_find?_of_findSome? ((construct_eq_some_iff hraw).1 h)
  rw [same_iff_isForm hmade
    (not_reference_of_mem_candidates hplain (List.mem_of_find?_eq_some ht)), Native, ht]
  simp

end LeafType

namespace Tree

variable {t t₁ t' : Tree} {x : ElementId} {e : Element} {slot : LeafSlot} {p : Plan}
  {type : LeafType} {raw : Value} {default d : Value} {spec : ElementSpec} {v : LeafValue}
  {value : Option LeafValue}

/-! ## What an assignment needs -/

/-- The plan of a change can be carried out: its hooks run, and everything to be marked is still
there after that. -/
def Viable (t : Tree) (x : ElementId) : Prop :=
  ∃ p t₁, t.plan x none = .ok p ∧ (runUnsets p.unsets).on t = (.ok (), t₁) ∧
    ∀ y ∈ p.marks, (t₁.element? y).isSome

theorem not_viable {err : Error} (hp : t.plan x none = .error err) : ¬ t.Viable x := by
  rintro ⟨p, t₁, hp', -⟩
  rw [hp] at hp'
  cases hp'

/-- Marking succeeds exactly if everything to be marked is there. -/
theorem ensures_markChanged_iff (ids : List ElementId) (t : Tree) :
    (markChanged ids).Ensures t (fun _ _ => ∀ y ∈ ids, (t.element? y).isSome)
      fun _ _ => ¬ ∀ y ∈ ids, (t.element? y).isSome := by
  by_cases hall : ∀ y ∈ ids, (t.element? y).isSome
  · exact (ensures_markChanged hall).mono (fun _ _ _ => hall) fun _ _ hf => hf.elim
  · refine ((isSome_of_markChanged ids t).and ((sameFrame_markChanged ids).ensures t)).mono
      (fun _ t' h y hy => ?_) fun _ _ _ => hall
    rw [← h.2.isSome]
    exact h.1 y hy

/-- What follows the hooks of a plan decides with its marks whether the plan can be carried out. -/
theorem ensures_viable {rest : Edit Unit} {done : Tree → Prop} (hp : t.plan x none = .ok p)
    (hrest : ∀ t₁, (runUnsets p.unsets).on t = (.ok (), t₁) →
      rest.Ensures t₁ (fun _ t' => (∀ y ∈ p.marks, (t₁.element? y).isSome) ∧ done t')
        fun _ _ => ¬ ∀ y ∈ p.marks, (t₁.element? y).isSome) :
    (do runUnsets p.unsets
        rest : Edit Unit).Ensures t (fun _ t' => t.Viable x ∧ done t') fun _ _ => ¬ t.Viable x := by
  have hplan : ∀ {p'}, t.plan x none = .ok p' → p = p' :=
    fun hp' => Except.ok.inj (hp.symm.trans hp')
  refine ((ensures_on (runUnsets p.unsets) t).mono (fun _ _ hok => hok) fun err t₁ hfail => ?_).bind
    fun _ t₁ hok => ?_
  · rintro ⟨p', t₂, hp', hon, -⟩
    obtain rfl := hplan hp'
    rw [hfail] at hon
    cases hon
  · refine (hrest t₁ hok).mono (fun _ t' h => ⟨⟨p, t₁, hp, hok, h.1⟩, h.2⟩) fun _ _ hgone => ?_
    rintro ⟨p', t₂, hp', hon, hmarks⟩
    obtain rfl := hplan hp'
    rw [hok] at hon
    cases hon
    exact hgone hmarks

/-- A change succeeds exactly if its plan can be carried out. -/
theorem ensures_set_viable (t : Tree) (x : ElementId) :
    (set x none).Ensures t (fun _ _ => t.Viable x) fun _ _ => ¬ t.Viable x := by
  rw [set, ensures_reading_bind]
  refine ⟨fun p hp => ?_, fun err hfail => ?_⟩
  · have hmarks : ∀ t₁, (runUnsets p.unsets).on t = (.ok (), t₁) →
        (markChanged p.marks).Ensures t₁ (fun _ _ => (∀ y ∈ p.marks, (t₁.element? y).isSome) ∧ True)
          fun _ _ => ¬ ∀ y ∈ p.marks, (t₁.element? y).isSome := fun t₁ _ =>
      (ensures_markChanged_iff p.marks t₁).mono (fun _ _ h => ⟨h, trivial⟩) fun _ _ h => h
    exact (ensures_viable hp hmarks).mono (fun _ _ h => h.1) fun _ _ h => h
  · exact not_viable hfail

/-- Where its type accepts the value an assignment succeeds exactly if the plan of the change
can be carried out, and the leaf holds then what the type made of the value. -/
theorem ensures_setLeaf_viable (he : t.element? x = some e) (hslot : e.content = .leaf slot)
    (hplain : slot.type.involvesReference = false) (hvalue : slot.type.construct raw = .ok value) :
    (setLeaf x raw).Ensures t
      (fun _ t' => t.Viable x ∧ t'.held x = some (.leaf { slot with value }))
      fun _ _ => ¬ t.Viable x := by
  have htype : leafType e = .ok slot.type := by rw [leafType, hslot]
  cases hp : t.plan x none with
  | error err =>
    -- Planning comes first, before anything depends on the type.
    rw [setLeaf, ensures_reading_bind]
    refine ⟨fun t₀ ht₀ => ?_, fun _ hf => by cases hf⟩
    obtain rfl : t = t₀ := Except.ok.inj ht₀
    rw [assignFrom, ensures_reading_bind, hp]
    exact ⟨fun _ hok => (by cases hok), fun _ _ => not_viable hp⟩
  | ok p =>
    rw [Edit.Ensures, on_setLeaf hp he htype hplain hvalue]
    refine ensures_viable hp fun t₁ hon => ?_
    rw [ensures_bind, ensures_update]
    refine ⟨fun e₁ he₁ => ?_, fun hnone hmarks => ?_⟩
    · -- The hooks may have removed the leaf, but if not it is one still, and of its type.
      have hshrinks : t.Shrinks t₁ := by simpa [hon] using shrinks_runUnsets p.unsets t
      obtain ⟨e₀, he₀, hse⟩ := hshrinks.element he₁
      obtain rfl : e = e₀ := Option.some.inj (he.symm.trans he₀)
      have hheld := held_store value he₁ hse.bare hslot
      let t₂ := t₁.modifyElement x (store value)
      have hlive : (∀ y ∈ p.marks, (t₂.element? y).isSome) ↔
          ∀ y ∈ p.marks, (t₁.element? y).isSome := by
        simp only [t₂, isSome_element?_modifyElement]
      exact ((ensures_markChanged_iff p.marks t₂).and
        ((sameData_markChanged p.marks).ensures t₂)).mono
        (fun _ t' h => ⟨hlive.1 h.1, by rw [h.2, hheld]⟩) fun _ _ h hmarks => h.1 (hlive.2 hmarks)
    · have hx := hmarks x (mem_marks_of_planFrom hp)
      rw [hnone] at hx
      cases hx

/-- The plan of a root can be carried out. -/
theorem viable_of_root (he : t.element? x = some e) (hroot : e.parent = none) : t.Viable x := by
  refine ⟨⟨[x], []⟩, t, planFrom_succ_eq_ok.2 ⟨e, [], he, rfl, .inl ⟨hroot, rfl⟩⟩, rfl,
    fun y hy => ?_⟩
  rw [List.mem_singleton.1 hy, he]
  rfl

/-! ## Leaves with a default -/

/-- A leaf that has just been instantiated is unset and has the default of its schema or else that
of its description, which its type accepts. -/
theorem ensures_instantiate_leaf (hd : (withDefault spec default).default = d)
    (hraw : d.isEmpty = false) :
    (instantiate (.leaf type default) spec).Ensures t
      (fun x t' => (∃ e, t'.element? x = some e ∧ e.content = .leaf { type } ∧ e.default = d ∧
        e.parent = spec.parent) ∧ ∃ value, type.construct d = .ok value) fun _ _ => True := by
  subst hd
  rw [instantiate, ensures_changing_bind, build, ensures_bind, ensures_ofExcept_bind]
  refine ⟨fun u hcheck => ?_, fun _ _ => trivial⟩
  refine (ensures_made (.leaf { type }) { withDefault spec default with isLeaf := true } _).mono
    (fun x t₁ h₁ => ?_) fun _ _ _ => trivial
  obtain ⟨rfl, rfl⟩ := h₁
  rw [ensures_reading_bind]
  refine ⟨fun _ _ => ?_, fun _ _ => trivial⟩
  rw [ensures_get_bind]
  refine ⟨fun _ _ => ?_, fun _ => trivial⟩
  rw [ensures_changing_bind, ensures_pure]
  refine ⟨⟨_, element?_made_self, rfl, rfl, parent_withDefault spec default⟩, ?_⟩
  rw [checkDefault, if_neg (by simp [hraw]), map_eq_ok] at hcheck
  obtain ⟨value, hvalue, -⟩ := hcheck
  exact ⟨value, hvalue⟩

/-- An element that already holds what its type makes of its default counts as unchanged exactly if
the default is native to the type. -/
theorem changed_newElement (hplain : type.involvesReference = false)
    (hraw : spec.default.isEmpty = false) (hv : type.construct spec.default = .ok (some v))
    (t : Tree) : (t.newElement (.leaf { type, value := some v }) spec).changed = false ↔
      type.Native spec.default := by
  obtain ⟨w, hw, hvalue⟩ := LeafType.isPlain_of_construct hraw hv
  obtain rfl := Option.some.inj hw
  rw [← LeafType.same_iff_native hplain hraw hv]
  simp [newElement, Element.ofSpec, Content.supplied, LeafSlot.supplied, hvalue.1]

/-- **Defaults as declared**: a leaf that has just been instantiated reads as its default itself.
Its type accepts that default, so assigning it succeeds where any change of the leaf does, and the
leaf reads then as what the type makes of it.  That this is the default, and that an element which
already holds it counts as unchanged, holds exactly for the defaults that are native to the type. -/
theorem default_native_iff (hplain : type.involvesReference = false)
    (hd : (withDefault spec default).default = d) (hraw : d.isEmpty = false)
    (hon : (instantiate (.leaf type default) spec).on t = (.ok x, t')) :
    ∃ v, type.construct d = .ok (some v) ∧ t'.value x = .ok d ∧
      (∀ {t''}, (setLeaf x d).on t' = (.ok (), t'') → t''.value x = .ok v.toValue) ∧
      ((∃ t'', (setLeaf x d).on t' = (.ok (), t'')) ↔ ∃ t'', (set x none).on t' = (.ok (), t'')) ∧
      (spec.parent = none → ∃ t'', (setLeaf x d).on t' = (.ok (), t'')) ∧
      (v.toValue.same d = true ↔ type.Native d) ∧
      ∀ (u : Tree) (spec' : ElementSpec), spec'.default = d → u.HasParent spec' →
        ∃ y u' e, (wrap (.leaf { type, value := some v }) spec').on u = (.ok y, u') ∧
          u'.element? y = some e ∧ (e.changed = false ↔ type.Native d) := by
  obtain ⟨⟨e, he, hslot, hdefault, hparent⟩, value, hvalue⟩ :=
    (ensures_instantiate_leaf hd hraw).of_ok hon
  obtain ⟨v, rfl, hv⟩ := LeafType.isPlain_of_construct hraw hvalue
  have hset := ensures_setLeaf_viable he hslot hplain hvalue
  have hviable : (∃ t'', (setLeaf x d).on t' = (.ok (), t'')) ↔ t'.Viable x :=
    (hset.mono (fun _ _ h => h.1) fun _ _ h => h).succeeds_iff
  refine ⟨v, hvalue, hdefault ▸ value_of_unset he hslot rfl, fun hok => ?_, ?_, fun hroot => ?_,
    LeafType.same_iff_native hplain hraw hvalue, fun u spec' hd' hu => ?_⟩
  · exact value_of_held (hset.of_ok hok).2 rfl hv
  · exact hviable.trans (ensures_set_viable t' x).succeeds_iff.symm
  · exact hviable.2 (viable_of_root he (hparent.trans hroot))
  · subst hd'
    exact ⟨_, _, _, on_wrap _ hu, element?_made_self, changed_newElement hplain hraw hvalue u⟩

/-- A small number with a default that is spelled as a text. -/
def spelled : Blueprint := .leaf .uint8 (.text "5")

/-- That leaf, just instantiated. -/
def fresh : Tree := (Operation.instantiate spelled { name := "level" }).after {}

theorem on_instantiate_spelled :
    (instantiate spelled { name := "level" }).on {} = (.ok ⟨0⟩, fresh) := rfl

/-- What its type makes of the text. -/
theorem construct_spelled :
    ∃ v, LeafType.uint8.construct (.text "5") = .ok (some v) ∧ v.toValue = .uint 5 :=
  ⟨_, rfl, rfl⟩

/-- Unset the leaf reads as the text, and after an assignment of the same text as the number. -/
theorem default_native_iff_spelled : fresh.value ⟨0⟩ = .ok (.text "5") ∧
    ∃ t'', (setLeaf ⟨0⟩ (.text "5")).on fresh = (.ok (), t'') ∧ t''.value ⟨0⟩ = .ok (.uint 5) := by
  obtain ⟨w, hw, hread⟩ := construct_spelled
  obtain ⟨v, hv, hfresh, hset, -, hroot, -⟩ := default_native_iff rfl rfl rfl on_instantiate_spelled
  obtain rfl := Option.some.inj (Except.ok.inj (hw.symm.trans hv))
  obtain ⟨t'', hon⟩ := hroot rfl
  exact ⟨hfresh, t'', hon, hread ▸ hset hon⟩

/-- So a default does not read like an assignment of it. -/
theorem not_default_reads :
    ¬ ∀ (type : LeafType) default spec t x t₁ t₂ v, type.involvesReference = false →
      (withDefault spec default).default.isEmpty = false →
      (instantiate (.leaf type default) spec).on t = (.ok x, t₁) →
      (setLeaf x (withDefault spec default).default).on t₁ = (.ok (), t₂) →
      type.construct (withDefault spec default).default = .ok (some v) →
      (∃ a b, t₁.value x = .ok a ∧ t₂.value x = .ok b ∧ a.same b = true) ∧
        ∀ (u : Tree) (spec' : ElementSpec), spec'.default = (withDefault spec default).default →
          (u.newElement (.leaf { type, value := some v }) spec').changed = false := by
  intro hall
  obtain ⟨v, hv, hread⟩ := construct_spelled
  obtain ⟨_, t₂, hon⟩ :=
    exists_ok_of_isOk (x := setLeaf ⟨0⟩ (.text "5")) (t := fresh) (by decide +kernel)
  obtain ⟨⟨a, b, ha, hb, hsame⟩, -⟩ := hall _ _ _ _ _ _ _ _ rfl rfl on_instantiate_spelled hon hv
  obtain ⟨e, he, hslot, hdefault⟩ : ∃ e, fresh.element? ⟨0⟩ = some e ∧
      e.content = .leaf { type := .uint8 } ∧ e.default = .text "5" := ⟨_, rfl, rfl, rfl⟩
  obtain ⟨w, hw, hplain⟩ := LeafType.isPlain_of_construct rfl hv
  obtain rfl := Option.some.inj hw
  rw [value_of_unset he hslot rfl, hdefault] at ha
  rw [value_of_held ((ensures_setLeaf_viable he hslot rfl hv).of_ok hon).2 rfl hplain, hread] at hb
  cases ha
  cases hb
  cases hsame

end Tree

end DataTree
