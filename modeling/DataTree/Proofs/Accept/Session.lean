import DataTree.Proofs.Accept.Plans
import DataTree.Proofs.Keys.Session

/-!
# DataTree.Proofs.Accept.Session

Which values a leaf accepts, and what it reads as then.

A leaf without references accepts what its type accepts, unless the plan of the change
is stale or uproots the leaf (`accepts_of_evolves`).  No plan is stale as long as no part
of the tree was removed by itself, and none uproots anything if all choices are apart.
-/

namespace DataTree.Tree

open Edit Outcome

variable {t t' : Tree} {x : ElementId} {e : Element} {slot : LeafSlot} {p : Plan}
  {schema : Blueprint} {spec : ElementSpec} {node : ElementId → Schema}

/-! ## Assigning -/

/-- Once the value is there, only the plan decides. -/
theorem ensures_assign (hs : Sound t ∅) (hd : t.Declared) (hp : t.plan x none = .ok p)
    (hx : (t.element? x).isSome) (value : Option LeafValue) :
    (do runUnsets p.unsets
        update x (store value)
        markChanged p.marks : Edit Unit).Ensures t (fun _ _ => ¬ t.Stale x ∧ ¬ t.Uproots x)
      fun _ _ => t.Stale x ∨ t.Uproots x := by
  refine ((ensures_runUnsets hs hd hp).mono (fun _ _ hr => hr) fun _ _ hf => .inl hf).bind
    fun _ t₁ h₁ => ?_
  obtain ⟨hfresh, hran⟩ := h₁
  cases hx₁ : t₁.element? x with
  | none =>
    obtain ⟨k, hk⟩ := (hran.gone_iff hs hx).1 hx₁
    rw [ensures_bind, ensures_update]
    exact ⟨fun _ he => (by rw [hx₁] at he; cases he), fun _ => .inr ⟨p, k, hp, hk⟩⟩
  | some e₁ =>
    have hstays : ¬ t.Uproots x := by
      intro hup
      obtain ⟨p', k, hp', hk⟩ := hup
      obtain rfl : p = p' := Except.ok.inj (hp.symm.trans hp')
      rw [(hran.gone_iff hs hx).2 ⟨k, hk⟩] at hx₁
      cases hx₁
    have hmarks : ∀ y ∈ p.marks, (t₁.element? y).isSome := fun y hy =>
      hran.isSome_of_mem_marks hs hp (by rw [hx₁]; rfl) hy
    exact (ensures_store (mem_marks_of_planFrom hp) value hmarks).mono
      (fun _ _ _ => ⟨hfresh, hstays⟩) fun _ _ hf => hf.elim

/-- **Acceptance**: an assignment succeeds exactly if the type accepts the value and the plan can
be carried out. -/
theorem setLeaf_succeeds_iff (hs : Sound t ∅) (hd : t.Declared) (hh : t.Hooked)
    (he : t.element? x = some e) (hslot : e.content = .leaf slot)
    (hplain : slot.type.involvesReference = false) (raw : Value) :
    (∃ t', (setLeaf x raw).on t = (.ok (), t')) ↔
      (∃ value, slot.type.construct raw = .ok value) ∧ ¬ t.Stale x ∧ ¬ t.Uproots x := by
  have htype : leafType e = .ok slot.type := by rw [leafType, hslot]
  obtain ⟨p, hp⟩ := exists_plan hs hh he
  have hlive : (t.element? x).isSome := by rw [he]; rfl
  constructor
  · intro hok
    obtain ⟨t', hon⟩ := hok
    have hput := put_setLeaf (x := x) hs hd raw fun {e' type'} he' htype' => by
      obtain rfl : e = e' := Option.some.inj (he.symm.trans he')
      obtain rfl : slot.type = type' := Except.ok.inj (htype.symm.trans htype')
      exact hplain
    obtain ⟨p', slot', value, -, hheld, hvalue, -⟩ := hput.of_ok hon
    obtain ⟨e', he', hslot'⟩ := held_eq_some_iff.1 hheld
    obtain rfl : e = e' := Option.some.inj (he.symm.trans he')
    obtain rfl : slot = slot' := Content.leaf.inj (hslot.symm.trans hslot')
    rw [on_setLeaf hp he htype hplain hvalue] at hon
    exact ⟨⟨value, hvalue⟩, (ensures_assign hs hd hp hlive value).of_ok hon⟩
  · intro hok
    obtain ⟨⟨value, hvalue⟩, hfresh, hstays⟩ := hok
    have hall := ensures_assign hs hd hp hlive value
    rw [on_setLeaf hp he htype hplain hvalue]
    cases hon : (do
      runUnsets p.unsets
      update x (store value)
      markChanged p.marks : Edit Unit).on t with
    | mk r t' =>
      cases r with
      | ok u => exact ⟨t', rfl⟩
      | error err => exact ((hall.of_error hon).elim hfresh hstays).elim

/-! ## Reading -/

/-- An unset leaf reads as its default. -/
theorem value_of_unset (he : t.element? x = some e) (hslot : e.content = .leaf slot)
    (hv : slot.value = none) : t.value x = .ok e.default := by
  have hel : t.element x = .ok e := element_eq_ok_iff.2 he
  rw [value, snapshot, snapshotFrom, bind_eq_ok]
  refine ⟨e, hel, ?_⟩
  simp only [hslot, hv]
  rfl

/-- What a leaf reads as when it holds what its type made of a raw value. -/
theorem value_of_construct {raw : Value} {value : Option LeafValue} (he : t.element? x = some e)
    (hslot : e.content = .leaf { slot with value }) (hvalue : slot.type.construct raw = .ok value) :
    (value = none ↔ raw.isEmpty = true) ∧
      t.value x = .ok ((value.map LeafValue.toValue).getD e.default) := by
  cases hraw : raw.isEmpty with
  | true =>
    obtain rfl : raw = .empty := by
      cases raw <;> first | rfl | cases hraw
    obtain rfl := Except.ok.inj ((LeafType.construct_empty slot.type).symm.trans hvalue)
    exact ⟨by simp, value_of_unset he hslot rfl⟩
  | false =>
    obtain ⟨v, rfl, hplain⟩ := LeafType.isPlain_of_construct hraw hvalue
    exact ⟨by simp, value_of_held (held_eq_some_iff.2 ⟨e, he, hslot⟩) rfl hplain⟩

/-- **What a leaf accepts**: in every tree that a schema describes, whatever was done with it, a
leaf without references accepts exactly what its type accepts and reads as that from then on, or
as its default once it was unset, if the plan of the change is not stale and does not uproot the
leaf.  Where all choices are apart no leaf is uprooted, and while no part of the tree was removed
by itself no plan is stale. -/
theorem accepts_of_evolves (hroot : spec.parent = none)
    (h : Evolves schema spec t) (he : t.element? x = some e) (hslot : e.content = .leaf slot)
    (hplain : slot.type.involvesReference = false) (raw : Value) :
    ((∃ t', (setLeaf x raw).on t = (.ok (), t')) ↔
        (∃ value, slot.type.construct raw = .ok value) ∧ ¬ t.Stale x ∧ ¬ t.Uproots x) ∧
      (∀ {t'}, (setLeaf x raw).on t = (.ok (), t') → ∃ value, slot.type.construct raw = .ok value ∧
        (value = none ↔ raw.isEmpty = true) ∧
        t'.value x = .ok ((value.map LeafValue.toValue).getD e.default)) ∧
      (schema.root.Apart → ¬ t.Uproots x) ∧ (Grows schema spec t → ¬ t.Stale x) := by
  obtain ⟨hs, node, hf⟩ := schematic_of_evolves hroot h
  have htype : leafType e = .ok slot.type := by rw [leafType, hslot]
  refine ⟨setLeaf_succeeds_iff hs hf.declared (hooked_of_evolves h) he hslot hplain raw,
    fun {t'} hon => ?_, fun ha => hf.not_uproots hs ha he,
    fun hgrows => not_stale_of_grows hroot hgrows x⟩
  have hput := (put_setLeaf (x := x) hs hf.declared raw fun {e' type'} he' htype' => by
    obtain rfl : e = e' := Option.some.inj (he.symm.trans he')
    obtain rfl : slot.type = type' := Except.ok.inj (htype.symm.trans htype')
    exact hplain).and ((shrinks_setLeaf x raw).ensures t)
  obtain ⟨⟨p, slot', value, -, hheld, hvalue, -, hheld'⟩, hshrinks⟩ := hput.of_ok hon
  obtain ⟨e₀, he₀, hslot₀⟩ := held_eq_some_iff.1 hheld
  obtain rfl : e = e₀ := Option.some.inj (he.symm.trans he₀)
  obtain rfl : slot = slot' := Content.leaf.inj (hslot.symm.trans hslot₀)
  obtain ⟨e', he', hslot'⟩ := held_eq_some_iff.1 hheld'
  obtain ⟨e₁, he₁, hse⟩ := hshrinks.element he'
  obtain rfl : e = e₁ := Option.some.inj (he.symm.trans he₁)
  have hdefault : e'.default = e.default := (congrArg Element.default hse.bare :)
  rw [← hdefault]
  exact ⟨value, hvalue, value_of_construct he' hslot' hvalue⟩

/-! ## A session -/

/-- One of two texts. -/
def either : Blueprint :=
  .container
    [⟨"x", some ⟨"c", "a"⟩, .leaf .string (.text "none")⟩, ⟨"y", some ⟨"c", "b"⟩, .leaf .string⟩]

theorem apart_either : either.root.Apart := by
  simp [either, Blueprint.declared, declareAll, declare, Schema.Apart, Schema.AllApart,
    Schema.MembersApart, Schema.choices]

/-- The second text is given, or was removed. -/
def second : Tree :=
  (Operation.setLeaf ⟨2⟩ (.text "kept")).after
    ((Operation.instantiate either { name := "root" }).after {})

def widowed : Tree :=
  (Operation.removeSubtree ⟨2⟩).after ((Operation.instantiate either { name := "root" }).after {})

theorem grows_second : Grows either { name := "root" } second :=
  Reaches.andThen .refl (.setLeaf ⟨2⟩ (.text "kept")) trivial

theorem evolves_widowed : Evolves either { name := "root" } widowed :=
  Reaches.andThen .refl (.removeSubtree ⟨2⟩) trivial

/-- What the first text is, in either case. -/
theorem text_second : ∃ e, second.element? ⟨1⟩ = some e ∧ e.content = .leaf { type := .string } ∧
    e.default = .text "none" := ⟨_, rfl, rfl, rfl⟩

theorem text_widowed : ∃ e, widowed.element? ⟨1⟩ = some e ∧ e.content = .leaf { type := .string } :=
  ⟨_, rfl, rfl⟩

/-- The first text takes the place of the second one and reads as what was assigned, an absent
value makes it read as its default, and a list is refused. -/
theorem accepts_second :
    (∃ t', (setLeaf ⟨1⟩ (.text "new")).on second = (.ok (), t') ∧
      t'.value ⟨1⟩ = .ok (.text "new")) ∧
      (∃ t', (setLeaf ⟨1⟩ .empty).on second = (.ok (), t') ∧ t'.value ⟨1⟩ = .ok (.text "none")) ∧
      ¬ ∃ t', (setLeaf ⟨1⟩ (.list [])).on second = (.ok (), t') := by
  obtain ⟨e, he, hslot, hdefault⟩ := text_second
  have hall := accepts_of_evolves rfl grows_second.evolves he hslot rfl
  have hplan : ∀ raw value, LeafType.string.construct raw = .ok value →
      ∃ t', (setLeaf ⟨1⟩ raw).on second = (.ok (), t') := by
    intro raw value hvalue
    obtain ⟨hiff, -, hapart, hgrows⟩ := hall raw
    exact hiff.2 ⟨⟨value, hvalue⟩, hgrows grows_second, hapart apart_either⟩
  refine ⟨?_, ?_, fun hok => ?_⟩
  · obtain ⟨t', hon⟩ := hplan (.text "new") _ rfl
    obtain ⟨value, hvalue, -, hread⟩ := (hall (.text "new")).2.1 hon
    obtain rfl := Except.ok.inj hvalue
    exact ⟨t', hon, hread⟩
  · obtain ⟨t', hon⟩ := hplan .empty _ rfl
    obtain ⟨value, hvalue, -, hread⟩ := (hall .empty).2.1 hon
    obtain rfl := Except.ok.inj hvalue
    exact ⟨t', hon, hdefault ▸ hread⟩
  · obtain ⟨⟨value, hvalue⟩, -⟩ := (hall (.list [])).1.1 hok
    cases hvalue

/-- Once the second text was removed, the first one refuses everything. -/
theorem not_accepts_widowed :
    ¬ ∀ schema spec t x e slot raw, spec.parent = none → Evolves schema spec t →
      t.element? x = some e → e.content = .leaf slot → slot.type.involvesReference = false →
      ((∃ t', (setLeaf x raw).on t = (.ok (), t')) ↔
        ∃ value, slot.type.construct raw = .ok value) := by
  intro hall
  obtain ⟨e, he, hslot⟩ := text_widowed
  have hok := (hall _ _ _ _ _ _ (.text "v") rfl evolves_widowed he hslot rfl).2 ⟨_, rfl⟩
  obtain ⟨t', hon⟩ := hok
  have hfails : ((setLeaf ⟨1⟩ (.text "v")).on widowed).1.isOk = false := by decide +kernel
  rw [hon] at hfails
  cases hfails

end DataTree.Tree
