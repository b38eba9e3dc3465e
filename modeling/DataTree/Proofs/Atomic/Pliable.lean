import DataTree.Proofs.Choice.Plan
import DataTree.Proofs.Contents

/-!
# DataTree.Proofs.Atomic.Pliable

Trees in which unsetting the members of choices cannot fail and takes nothing but data
away.

Hooks are set up by whoever builds a tree, and a hook may lead to something that cannot
be unset: a supplied base that refuses, a container that was put into a box, a removed
element.  It may also take elements away, which a later step then misses.  A tree is
`Pliable` if no hook of a member does either.  Carrying out any plan then leads along
`Softens`: elements, links and what can be cleared stay as they are.
-/

namespace DataTree

open Edit Outcome

/-! ## What can be cleared -/

namespace Content

/-- Clearing the content succeeds, whatever is done to it before, and takes no element away. -/
def Soft (c : Content) : Prop := c.Clears ∨ ∃ l, c = .list l ∧ l.members = []

/-- Leaves and leaf-lists of a schema can be cleared. -/
theorem clears_of_isDeclared {c : Content} (hd : c.IsDeclared) (hc : c ≠ .container)
    (hl : ∀ l, c ≠ .list l) : c.Clears := by
  cases c with
  | leaf _ | leafList _ => trivial
  | container => exact absurd rfl hc
  | list l => exact absurd rfl (hl l)
  | custom c => exact hd.elim

/-- Schemas do not declare supplied bases or boxes. -/
theorem isCustom_of_isDeclared {c : Content} (h : c.IsDeclared) : c.isCustom = false := by
  cases c with
  | custom c => exact h.elim
  | _ => rfl

theorem soft_leaf (slot : LeafSlot) : (Content.leaf slot).Soft := .inl trivial

end Content

namespace Tree

variable {t t' : Tree} {id x : ElementId} {e : Element} {hook : Unset} {hooks : List Unset}
  {active : Option Case} {fuel : Nat} {p : Plan}

/-! ## Staying soft -/

/-- Elements differ in data and marks only, and what was soft is soft still. -/
structure Softens (t t' : Tree) : Prop extends SameFrame t t' where
  soft : ∀ {id e e'}, t.element? id = some e → t'.element? id = some e' → e.content.Soft →
    e'.content.Soft

instance : IsPreorder Tree Softens where
  refl t := ⟨refl_of SameFrame t, fun he he' hs => Option.some.inj (he.symm.trans he') ▸ hs⟩
  trans _ _ _ h h' :=
    { toSameFrame := trans_of SameFrame h.toSameFrame h'.toSameFrame
      soft := fun he he' hs => by
        obtain ⟨e₁, he₁, -⟩ := h'.toSameFrame.element? he'
        exact h'.soft he₁ he' (h.soft he he₁ hs) }

theorem softens_modifyElement {f : Element → Element} (h : ∀ e, t.element? id = some e →
    (f e).frame = e.frame ∧ (e.content.Soft → (f e).content.Soft)) :
    t.Softens (t.modifyElement id f) := by
  refine ⟨sameFrame_modifyElement fun e he => (h e he).1, fun {x e e'} he he' hs => ?_⟩
  by_cases hx : x = id
  · subst hx
    rw [element?_modifyElement_self he] at he'
    rw [← Option.some.inj he']
    exact (h e he).2 hs
  · rw [element?_modifyElement_of_ne hx] at he'
    exact Option.some.inj (he.symm.trans he') ▸ hs

theorem softens_of_slots (hs : t'.slots = t.slots) (hl : t'.live = t.live)
    (hm : t'.madeKeys = t.madeKeys) : t.Softens t' :=
  ⟨sameFrame_of_slots hs hl hm, fun he he' hs' =>
    Option.some.inj ((element?_congr hs _ ▸ he').symm.trans he) ▸ hs'⟩

theorem softens_store (value : Option LeafValue) :
    t.Softens (t.modifyElement id (store value)) := by
  refine softens_modifyElement fun e _ => ⟨frame_store value e, fun hs => ?_⟩
  unfold store
  split
  · exact Content.soft_leaf _
  · exact hs

theorem softens_markChanged (ids : List ElementId) : Leads Softens (markChanged ids) :=
  leads_forM fun _ _ => leads_update fun _ _ _ =>
    softens_modifyElement fun _ _ => ⟨rfl, fun hs => hs⟩

/-! ## Hooks that can be run -/

/-- Looking for what holds data depends on frames only. -/
theorem SameFrame.holdersFrom (h : t.SameFrame t') (fuel : Nat) (id : ElementId) :
    t'.holdersFrom fuel id = t.holdersFrom fuel id := by
  induction fuel generalizing id with
  | zero => rfl
  | succ fuel ih =>
    have hrec : t'.holdersFrom fuel = t.holdersFrom fuel := funext ih
    rw [Tree.holdersFrom, Tree.holdersFrom, hrec]
    cases he : t.element? id with
    | none =>
      have he' : t'.element? id = none := by
        have hf := h.element id
        rwa [he, Option.map_none, Option.map_eq_none_iff] at hf
      rw [Tree.element, Tree.element, he, he']
    | some e =>
      obtain ⟨e', he', hf⟩ := h.symm.element? he
      obtain ⟨hb, hch, -⟩ := Element.frame_eq_iff.1 hf
      have hc : e'.content.isContainer = e.content.isContainer := by
        rw [Bool.eq_iff_iff, Content.isContainer_iff, Content.isContainer_iff]
        exact (Element.shrinks_of_frame hf).container.symm
      rw [Tree.element, Tree.element, he, he']
      show (if _ then _ else _) = if _ then _ else _
      rw [hc, hch]

/-- Running the hook unsets something that can be cleared, and removes nothing. -/
def Mild (t : Tree) : Unset → Prop
  | .contents id => ∃ hs, t.holders id = .ok hs ∧
      ∀ x ∈ hs, ∃ e, t.element? x = some e ∧ e.content.Soft
  | .subtree _ => False

/-- The hooks of all members of choices are mild. -/
def Pliable (t : Tree) : Prop :=
  ∀ ⦃id e k m hook⦄, t.element? id = some e → e.choices.Has k m →
    Assoc.get? m e.unsetters = some hook → t.Mild hook

theorem Mild.softens (h : t.Mild hook) (hs : t.Softens t') : t'.Mild hook := by
  cases hook with
  | contents id =>
    obtain ⟨holders, hh, hall⟩ := h
    refine ⟨holders, ?_, fun x hx => ?_⟩
    · rw [Tree.holders, hs.size, hs.toSameFrame.holdersFrom]
      exact hh
    · obtain ⟨e, he, hsoft⟩ := hall x hx
      obtain ⟨e', he', -⟩ := hs.toSameFrame.symm.element? he
      exact ⟨e', he', hs.soft he he' hsoft⟩
  | subtree id => exact h.elim

/-- Clearing what is soft cannot fail and leaves all elements. -/
theorem ensures_clear_of_soft (he : t.element? id = some e) (hs : e.content.Soft) :
    (clear id).Ensures t (fun _ => t.Softens) fun _ _ => False := by
  have hnone : t.element? id = none → False := fun hno => by rw [hno] at he; cases he
  rw [clear, ensures_get_bind]
  refine ⟨fun e' he' => ?_, hnone⟩
  obtain rfl : e = e' := Option.some.inj (he.symm.trans he')
  obtain hclears | ⟨l, hl, hempty⟩ := hs
  · obtain ⟨⟨vs, c⟩, hclear⟩ := Content.exists_clear_of_clears hclears
    split
    · next l hl =>
      rw [hl] at hclear
      cases hclear
    · rw [ensures_ofExcept_bind_of hclear, ensures_bind, ensures_update]
      refine ⟨fun _ _ => ?_, hnone⟩
      have hcleared : t.Softens (t.modifyElement id fun e => { e with content := c }) := by
        refine softens_modifyElement fun e' he' => ?_
        obtain rfl : e = e' := Option.some.inj (he.symm.trans he')
        exact ⟨Element.frame_of_content (Content.sameFrame_of_clear hclear),
          fun _ => .inl (hclears.of_clear hclear)⟩
      rw [ensures_changing]
      obtain ⟨hslots, hlive, hmade⟩ := foldl_unregisterMember e e.content.members
        (t.modifyElement id fun e => { e with content := c })
      exact trans_of Softens hcleared (softens_of_slots hslots hlive hmade)
  · rw [hl]
    show (update id _ >>= fun _ => l.entries.forM removeSubtree).Ensures t _ _
    rw [KeyedList.entries, hempty, ensures_bind, ensures_update]
    refine ⟨fun _ _ => ?_, hnone⟩
    refine softens_modifyElement fun e' he' => ?_
    obtain rfl : e = e' := Option.some.inj (he.symm.trans he')
    refine ⟨Element.frame_of_content ?_, fun _ => .inr ⟨_, rfl, rfl⟩⟩
    rw [hl]
    exact ⟨rfl, by simp [Content.links, hempty]⟩

/-- Running mild hooks cannot fail and leaves all elements. -/
theorem ensures_runUnsets_of_mild (h : ∀ hook ∈ hooks, t.Mild hook) :
    (runUnsets hooks).Ensures t (fun _ => t.Softens) fun _ _ => False := by
  refine ensures_forM (I := fun rest t' => (∀ hook ∈ rest, t'.Mild hook) ∧ t.Softens t') ?_
    (l := hooks) ⟨h, refl_of Softens t⟩ |>.mono (fun _ _ hd => hd.2) fun _ _ hf => hf
  intro hook rest t₁ hI
  obtain ⟨hmild, hs₁⟩ := hI
  have hrun : (runUnset hook).Ensures t₁ (fun _ => t₁.Softens) fun _ _ => False := by
    have hhook := hmild hook List.mem_cons_self
    cases hook with
    | subtree id => exact hhook.elim
    | contents id =>
      obtain ⟨holders, hh, hall⟩ := hhook
      rw [runUnset, unset, ensures_reading_bind]
      refine ⟨fun hs hhs => ?_, fun _ hhs => by rw [hh] at hhs; cases hhs⟩
      obtain rfl := Except.ok.inj (hh.symm.trans hhs)
      refine ensures_forM (I := fun rest t₂ => (∀ x ∈ rest, x ∈ holders) ∧ t₁.Softens t₂) ?_
        (l := holders) ⟨fun x hx => hx, refl_of Softens t₁⟩ |>.mono (fun _ _ hd => hd.2)
          fun _ _ hf => hf
      intro x rest t₂ hI₂
      obtain ⟨hsub, hs₂⟩ := hI₂
      obtain ⟨e, he, hsoft⟩ := hall x (hsub x List.mem_cons_self)
      obtain ⟨e₂, he₂, -⟩ := hs₂.toSameFrame.symm.element? he
      refine (ensures_clear_of_soft he₂ (hs₂.soft he he₂ hsoft)).mono (fun _ t₃ hs₃ => ?_)
        fun _ _ hf => hf
      exact ⟨fun y hy => hsub y (List.mem_cons_of_mem x hy), trans_of Softens hs₂ hs₃⟩
  refine hrun.mono (fun _ t₂ hs₂ => ⟨fun hook' hm => ?_, trans_of Softens hs₁ hs₂⟩) fun _ _ hf => hf
  exact (hmild hook' (List.mem_cons_of_mem hook hm)).softens hs₂

/-! ## Plans of pliable trees -/

/-- The hooks of a plan are those of members of choices. -/
theorem exists_member_of_planFrom (hp : t.planFrom fuel id active = .ok p) (hm : hook ∈ p.unsets) :
    ∃ x e k m, t.element? x = some e ∧ e.choices.Has k m ∧
      Assoc.get? m e.unsetters = some hook := by
  induction fuel generalizing id active p with
  | zero => cases hp
  | succ fuel ih =>
    obtain ⟨e, hooks, he, hh, hp⟩ := planFrom_succ_eq_ok.1 hp
    have hown : hook ∈ hooks →
        ∃ x e k m, t.element? x = some e ∧ e.choices.Has k m ∧
          Assoc.get? m e.unsetters = some hook := by
      intro hm
      obtain ⟨-, k, m, -, hk, -, hget⟩ := exists_rival_of_siblingHooks hh hm
      exact ⟨id, e, k, m, he, hk, hget⟩
    obtain ⟨-, rfl⟩ | ⟨parent, above, -, ha, rfl⟩ := hp
    · exact hown hm
    · obtain hm | hm := List.mem_append.1 hm
      · exact hown hm
      · exact ih ha hm

/-- In a pliable tree the hooks of every plan are mild. -/
theorem Pliable.mild_of_planFrom (h : t.Pliable) (hp : t.planFrom fuel id active = .ok p)
    (hm : hook ∈ p.unsets) : t.Mild hook := by
  obtain ⟨x, e, k, m, he, hk, hget⟩ := exists_member_of_planFrom hp hm
  exact h he hk hget

/-- A tree that was built from schemas is pliable if no list within a member has an entry. -/
theorem Sound.pliable {pending : Set ElementId} (h : Sound t pending) (ha : t.Arranged)
    (hlists : ∀ {id e k m c y ye l}, t.element? id = some e → e.choices.Has k m →
      (m, c) ∈ e.children → t.Within c y → t.element? y = some ye → ye.content = .list l →
      l.members = []) : t.Pliable := by
  intro id e k m hook he hk hget
  have hmem := Assoc.mem_of_get?_eq_some hget
  rw [(ha id).hooks he] at hmem
  obtain ⟨⟨m', c⟩, hmc, heq⟩ := List.mem_map.1 hmem
  obtain ⟨rfl, rfl⟩ := Prod.mk.inj heq
  obtain ⟨-, -, ce, hce, -⟩ := h.child he hmc
  obtain ⟨hs, hh, hhs⟩ := holders_spec h hce
  refine ⟨hs, hh, fun y hy => ?_⟩
  obtain ⟨hw, ye, hye, hcont⟩ := (hhs y).1 hy
  refine ⟨ye, hye, ?_⟩
  by_cases hl : ∃ l, ye.content = .list l
  · obtain ⟨l, hl⟩ := hl
    exact .inr ⟨l, hl, hlists he hk hmc hw hye hl⟩
  · exact .inl (Content.clears_of_isDeclared (ha.declared hye) hcont fun l hyl => hl ⟨l, hyl⟩)

end Tree

end DataTree
