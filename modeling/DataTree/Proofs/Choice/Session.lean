import DataTree.Proofs.Choice.Escape
import DataTree.Proofs.Session

/-!
# DataTree.Proofs.Choice.Session

Which trees stay exclusive while they are edited.
-/

namespace DataTree

open Edit

namespace Tree

variable {t : Tree} {id x : ElementId} {schema : Blueprint} {spec : ElementSpec} {safe : Prop}

/-! ## Trees as they are built -/

theorem orderly_empty : ({} : Tree).Orderly safe ∅ := by
  have hnone : ∀ id, ({} : Tree).element? id = none := fun id => by simp [element?]
  exact
    { sound := sound_empty
      arranged := fun id => arrangedAt_of_none (hnone id)
      unshadowed := fun _ id => unshadowedAt_of_none (hnone id)
      exclusive := fun _ id e _ _ _ _ _ _ he => by rw [hnone id] at he; cases he }

/-- A tree that was just built holds no data, and shadows no choice if its schema does not. -/
theorem orderly_instantiate (hroot : spec.parent = none) :
    ((Operation.instantiate schema spec).after {}).Orderly schema.root.Unshadowed ∅ := by
  have hd := schema.distinct
  refine rel_of_ensures (R := fun _ t' => t'.Orderly schema.root.Unshadowed ∅)
    (x := instantiate schema spec) (t := {}) ?_
  rw [instantiate, ensures_changing_bind]
  have h₁ : (tell {} (.instantiating spec.name)).Orderly schema.root.Unshadowed ∅ :=
    orderly_empty.tell _
  generalize htold : tell {} (.instantiating spec.name) = t₁ at h₁ ⊢
  have hsize : t₁.slots.size = 0 := by rw [← htold]; rfl
  have hfit : t₁.Fits spec := by constructor <;> simp [HasParent, hroot]
  have hpend : t₁.pendingFor spec = ∅ := pendingFor_of_none hroot
  have hbuild := (ensures_build schema hd h₁.sound hfit).and (laid_build schema hd h₁.sound hfit)
  refine (hbuild.mono (fun _ _ hb => hb) fun _ t' hf => ?_).bind fun id t₂ hb => ?_
  · exact h₁.fades (fun x e' he' =>
      ⟨e', hf.1.2.element x ▸ he', rfl, rfl, fun hdata => hdata⟩) hf.1.1
  · obtain ⟨hb, hlaid⟩ := hb
    have hle : ∀ x : ElementId, id.index ≤ x.index := by
      intro x
      rw [hb.id_eq, hsize]
      exact Nat.zero_le _
    have hsound := hb.sound
    rw [hpend, Set.union_empty] at hsound
    have h₂ : t₂.Orderly schema.root.Unshadowed ∅ :=
      { sound := hsound
        arranged := fun x => hlaid.arranged (hle x)
        unshadowed := fun hs x => hlaid.unshadowed hs (hle x)
        exclusive := fun _ => hsound.exclusive_iff.2 fun hx => by
          obtain ⟨xe, hxe, hdata⟩ := hx
          rw [hlaid.blank (hle _) hxe] at hdata
          cases hdata }
    rw [ensures_reading_bind]
    refine ⟨fun _ _ => ?_, fun _ _ => h₂⟩
    rw [ensures_get_bind]
    refine ⟨fun e _ => ?_, fun _ => h₂⟩
    rw [ensures_changing_bind]
    exact h₂.tell _

/-! ## Editing -/

/-- An edit keeps a tree orderly, whether it succeeds or fails. -/
theorem orderly_after {op : Operation} (h : t.Orderly safe ∅) (hop : t.Editing op) :
    (op.after t).Orderly safe ∅ := by
  cases op with
  | setLeaf id raw => exact (settles_setLeaf id raw t).2 h
  | editItem id edit => exact orderly_editItem id edit t h
  | extend id raws => exact orderly_extend id raws t h
  | unset id => exact orderly_unset id t h
  | add id key => exact orderly_add id key t h
  | delete id key => exact orderly_delete id key t h
  | _ => exact hop.elim

theorem orderly_of_grows (hroot : spec.parent = none) (h : Grows schema spec t) :
    t.Orderly schema.root.Unshadowed ∅ :=
  h.keeps (fun _ _ ho hop => orderly_after ho hop) (orderly_instantiate hroot)

/-- An operation that fills the element `x` and no other: it changes the items of `x`, or
assigns to it as a leaf without references. -/
def FillsOne (t : Tree) (x : ElementId) : Operation → Prop
  | .setLeaf id _ => id = x ∧ ∀ {e type}, t.element? id = some e → leafType e = .ok type →
      type.involvesReference = false
  | .editItem id _ _ | .extend id _ _ => id = x
  | _ => False

theorem mayFill_after {op : Operation} (h : t.Orderly safe ∅) (hop : t.FillsOne x op) :
    MayFill x t (op.after t) := by
  cases op with
  | setLeaf id raw =>
    obtain ⟨rfl, hplain⟩ := hop
    exact rel_of_ensures (R := MayFill id) (mayFill_setLeaf h.sound h.arranged raw hplain)
  | editItem id edit =>
    obtain rfl : id = x := hop
    exact rel_of_ensures (R := MayFill id) (mayFill_editItem h.sound h.arranged edit)
  | extend id raws =>
    obtain rfl : id = x := hop
    exact rel_of_ensures (R := MayFill id) (mayFill_extend h.sound h.arranged raws)
  | _ => exact hop.elim

/-- **Exclusivity of choices**: if a schema shadows no choice, then in every tree that editing
makes of it at most one case of every choice holds data.  Whatever the schema is, filling an
element keeps an exclusive tree exclusive exactly if its plan leaves alone no data that a rival
of the element holds. -/
theorem exclusive_of_grows (hroot : spec.parent = none) (h : Grows schema spec t) :
    (schema.root.Unshadowed → t.Exclusive) ∧
      ∀ {op x}, t.FillsOne x op → t.Exclusive → (op.after t).Laden x →
        ((op.after t).Exclusive ↔ ¬ t.Escapes x) := by
  have ho := orderly_of_grows hroot h
  refine ⟨ho.exclusive, fun {op x} hop hex hx => ?_⟩
  exact (mayFill_after ho hop).exclusive_iff ho.sound ho.arranged hex hx

/-! ## A session -/

/-- The address of a link is given by hand or asked for; given by hand, it may belong to a
family in turn. -/
def addressing (family : Option Case) : Blueprint :=
  .container
    [⟨"address", some ⟨"mode", "manual"⟩, .container [⟨"ipv4", family, .leaf .string⟩]⟩,
      ⟨"client", some ⟨"mode", "automatic"⟩, .leaf .string⟩]

/-- A link that asks for its address, and is then given one. -/
def addressed (family : Option Case) : Tree :=
  let made := (Operation.instantiate (addressing family) { name := "link" }).after {}
  let asking := (Operation.setLeaf ⟨3⟩ (.text "dhcp")).after made
  (Operation.setLeaf ⟨2⟩ (.text "10.0.0.1")).after asking

theorem grows_addressed (family : Option Case) :
    Grows (addressing family) { name := "link" } (addressed family) := by
  have hmade : Grows (addressing family) { name := "link" } _ := .refl
  have hasking := hmade.andThen (.setLeaf ⟨3⟩ (.text "dhcp")) trivial
  exact hasking.andThen (.setLeaf ⟨2⟩ (.text "10.0.0.1")) trivial

theorem laden_iff : t.Laden x ↔ (t.element? x).any (·.content.holdsData) = true := by
  simp [Laden, Option.any_eq_true]

/-- Without families no choice is shadowed, and the link does not ask any more. -/
theorem exclusive_addressed :
    (addressed none).Exclusive ∧ (addressed none).Laden ⟨2⟩ ∧ ¬ (addressed none).Laden ⟨3⟩ := by
  have hunshadowed : (addressing none).root.Unshadowed := by
    simp [addressing, Blueprint.declared, declareAll, declare, Schema.Unshadowed,
      Schema.AllUnshadowed, Schema.MembersUnshadowed, Schema.nears, Schema.nearsOf, Case.Rivals]
  have hgrows := exclusive_of_grows rfl (grows_addressed none)
  exact ⟨hgrows.1 hunshadowed, laden_iff.2 (by decide +kernel), fun h => by
    have hno := laden_iff.1 h
    revert hno
    decide +kernel⟩

/-- With families the link asks for an address although it was given one. -/
theorem not_exclusive_addressed :
    ¬ ∀ schema spec t, spec.parent = none → Grows schema spec t → t.Exclusive := by
  intro hall
  let family : Option Case := some ⟨"family", "four"⟩
  have hex := hall _ _ _ rfl (grows_addressed family)
  have hlink : ((addressed family).element? ⟨0⟩).map (fun e => (e.children, e.choices.cases "mode"))
      = some ([("address", ⟨1⟩), ("client", ⟨3⟩)],
        [("manual", ["address"]), ("automatic", ["client"])]) := by decide +kernel
  have hbelow : ((addressed family).element? ⟨1⟩).map (·.below) = some [⟨2⟩] := by decide +kernel
  obtain ⟨e, he, hfields⟩ := Option.map_eq_some_iff.1 hlink
  obtain ⟨hchildren, hcases⟩ := Prod.mk.inj hfields
  obtain ⟨a, ha, hbelow⟩ := Option.map_eq_some_iff.1 hbelow
  have haddress : (addressed family).HoldsData ⟨1⟩ :=
    ⟨⟨2⟩, .single ⟨a, ha, by simp [hbelow]⟩, laden_iff.2 (by decide +kernel)⟩
  have hclient : (addressed family).HoldsData ⟨3⟩ := ⟨⟨3⟩, .refl, laden_iff.2 (by decide +kernel)⟩
  have hmanual : e.choices.Has ⟨"mode", "manual"⟩ "address" :=
    ⟨["address"], by simp [hcases], by simp⟩
  have hautomatic : e.choices.Has ⟨"mode", "automatic"⟩ "client" :=
    ⟨["client"], by simp [hcases], by simp⟩
  have heq :=
    hex he hmanual hautomatic rfl (by simp [hchildren]) (by simp [hchildren]) haddress hclient
  simp at heq

end Tree

end DataTree
