import DataTree.Proofs.Tracking.Linked

/-!
# DataTree.Proofs.Tracking.Raised

What a subtree looks like when it has just been built.

Its root stands in the first new slot, and if that is a container then assignments to
its fields go to its own children, which are leaves of the types that the schema
declares (`raised_build`).
-/

namespace DataTree.Tree

open Edit Outcome

variable {t t' t₁ t₂ t₃ : Tree} {id c x leaf : ElementId} {e : Element} {field : String}
  {children : List (Child Schema)} {schema : Schema} {spec : ElementSpec}

/-! ## What stays while a subtree is built -/

/-- All elements are still there, with their parents, cases and contents, and but for `id` with
their hooks for assignments. -/
structure Grown (id : ElementId) (t t' : Tree) : Prop where
  size_le : t.slots.size ≤ t'.slots.size
  element : ∀ {x e}, t.element? x = some e → ∃ e', t'.element? x = some e' ∧ e'.parent = e.parent ∧
    e'.case = e.case ∧ e'.content = e.content ∧ (x ≠ id → e'.setters = e.setters)

instance (id : ElementId) : IsPreorder Tree (Grown id) where
  refl _ := ⟨Nat.le_refl _, fun {_ e} he => ⟨e, he, rfl, rfl, rfl, fun _ => rfl⟩⟩
  trans t₁ t₂ t₃ h h' :=
    { size_le := Nat.le_trans h.size_le h'.size_le
      element := fun he => by
        obtain ⟨e₂, he₂, hpar, hcase, hcontent, hset⟩ := h.element he
        obtain ⟨e₃, he₃, hpar', hcase', hcontent', hset'⟩ := h'.element he₂
        exact ⟨e₃, he₃, hpar'.trans hpar, hcase'.trans hcase, hcontent'.trans hcontent,
          fun hx => (hset' hx).trans (hset hx)⟩ }

/-- What concerns the hooks of a new element only concerns those of no old one. -/
theorem Grown.of_new (h : Grown c t t') (hc : t.slots.size ≤ c.index) (id : ElementId) :
    Grown id t t' where
  size_le := h.size_le
  element := fun {x e} he => by
    obtain ⟨e', he', hpar, hcase, hcontent, hset⟩ := h.element he
    refine ⟨e', he', hpar, hcase, hcontent, fun _ => hset ?_⟩
    rintro rfl
    exact absurd (index_lt_of_element? he) (Nat.not_lt.2 hc)

theorem grown_made (t : Tree) (content : Content) (spec : ElementSpec) (id : ElementId) :
    Grown id t (t.made content spec) where
  size_le := by simp [made]
  element := fun he => by
    obtain ⟨e', he', htrunk⟩ := exists_made content spec he
    exact ⟨e', he', Element.parent_of_trunk htrunk, (congrArg Element.case htrunk :),
      Element.content_of_trunk htrunk, fun _ => Element.setters_of_trunk htrunk⟩

theorem grown_addField (id : ElementId) (t : Tree) (name : String) (case : Option Case)
    (isLeaf : Bool) (child : ElementId) :
    Grown id t (t.modifyElement id (addField name case isLeaf child)) where
  size_le := Nat.le_of_eq (size_slots_modifyElement t id _).symm
  element := fun {x e} he => by
    rw [element?_modifyElement]
    split
    · next hx =>
      exact ⟨addField name case isLeaf child e, by rw [he]; rfl, rfl, rfl, rfl,
        fun hne => absurd hx hne⟩
    · exact ⟨e, he, rfl, rfl, rfl, fun _ => rfl⟩

/-! ## Fields -/

/-- Assignments to the field `field` of `id` go to a child of `id`, a leaf of the type that is
declared for the field and in the case that is. -/
def KeyLeaf (t : Tree) (id : ElementId) (children : List (Child Schema)) (field : String)
    (leaf : ElementId) : Prop :=
  ∃ e slot default, t.element? leaf = some e ∧ e.parent = some id ∧ e.content = .leaf slot ∧
    ⟨field, e.case, .leaf slot.type default⟩ ∈ children

theorem KeyLeaf.grown (h : t.KeyLeaf id children field leaf) (hg : Grown c t t') :
    t'.KeyLeaf id children field leaf := by
  obtain ⟨e, slot, default, he, hpar, hslot, hm⟩ := h
  obtain ⟨e', he', hpar', hcase, hcontent, -⟩ := hg.element he
  exact ⟨e', slot, default, he', hpar'.trans hpar, hcontent.trans hslot, hcase ▸ hm⟩

theorem KeyLeaf.mono {more : List (Child Schema)} (h : t.KeyLeaf id children field leaf)
    (hsub : children ⊆ more) : t.KeyLeaf id more field leaf := by
  obtain ⟨e, slot, default, he, hpar, hslot, hm⟩ := h
  exact ⟨e, slot, default, he, hpar, hslot, hsub hm⟩

/-- Every leaf that is declared can be assigned to. -/
def SetsAll (e : Element) (children : List (Child Schema)) : Prop :=
  ∀ child ∈ children, child.node.isLeaf = true → (Assoc.get? child.name e.setters).isSome

/-! ## Building -/

/-- `id` is the root of a subtree that has just been built. -/
structure Raised (t : Tree) (schema : Schema) (spec : ElementSpec) (id : ElementId)
    (t' : Tree) : Prop where
  id_eq : id = ⟨t.slots.size⟩
  grown : Grown id t t'
  element : ∃ e, t'.element? id = some e ∧ e.parent = spec.parent ∧ e.case = spec.case ∧
    (∀ type default, schema = .leaf type default → e.content = .leaf { type }) ∧
    ∀ children default, schema = .container children default →
      (∀ field leaf, (field, leaf) ∈ e.setters → t'.KeyLeaf id children field leaf) ∧
      SetsAll e children

/-- What making an element leaves, if it succeeds. -/
theorem ensures_made (content : Content) (spec : ElementSpec) (t : Tree) :
    (wrap content spec).Ensures t (fun id t' => id = ⟨t.slots.size⟩ ∧ t' = t.made content spec)
      fun _ _ => True := ensures_wrap_of (fun _ => ⟨rfl, rfl⟩) fun _ _ => trivial

/-- An element that is no container is raised by making it. -/
theorem raised_wrap (content : Content) (spec' : ElementSpec) (hp : spec'.parent = spec.parent)
    (hcase : spec'.case = spec.case)
    (hleaf : ∀ type default, schema = .leaf type default → content = .leaf { type })
    (hcont : ∀ children default, schema ≠ .container children default) (t : Tree) :
    (wrap content spec').Ensures t (t.Raised schema spec) fun _ _ => True := by
  refine (ensures_made content spec' t).mono (fun id t' h => ?_) fun _ _ _ => trivial
  obtain ⟨rfl, rfl⟩ := h
  exact ⟨rfl, grown_made t content spec' _, _, element?_made_self, hp, hcase, hleaf,
    fun _ _ h => absurd h (hcont _ _)⟩

mutual

/-- A subtree that is built is raised. -/
theorem raised_build : ∀ (schema : Schema) (spec : ElementSpec) (t : Tree),
    (build schema spec).Ensures t (t.Raised schema spec) fun _ _ => True
  | .leaf type default, spec, t => by
    rw [build, ensures_ofExcept_bind]
    refine ⟨fun _ _ => ?_, fun _ _ => trivial⟩
    refine raised_wrap (.leaf { type }) { withDefault spec default with isLeaf := true }
      (parent_withDefault spec default) (case_withDefault spec default)
      (fun _ _ h => ?_) (by simp) t
    cases h
    rfl
  | .leafList type default, spec, t => by
    rw [build]
    exact raised_wrap (.leafList { type }) _ (parent_withDefault spec default)
      (case_withDefault spec default) (fun _ _ h => by cases h) (by simp) t
  | .list list default, spec, t => by
    rw [build]
    exact raised_wrap (.list { schema := list })
      { withDefault spec default with isContainer := true }
      (parent_withDefault spec default) (case_withDefault spec default)
      (fun _ _ h => by cases h) (by simp) t
  | .container children default, spec, t => by
    rw [build]
    refine (ensures_made .container _ t).bind fun id t₁ h₁ => ?_
    obtain ⟨rfl, rfl⟩ := h₁
    rw [ensures_bind, orRemove, ensures_tryCatch]
    refine (raised_populate children ⟨t.slots.size⟩ _ _ element?_made_self).mono
      (fun _ t₂ h₂ => ?_) fun _ t₂ _ => ?_
    · obtain ⟨hg, e, he, hset, -, hall⟩ := h₂
      obtain ⟨e', he', hpar, hcase, -⟩ := hg.element element?_made_self
      obtain rfl : e = e' := Option.some.inj (he.symm.trans he')
      refine ⟨rfl, trans_of (Grown _) (grown_made t _ _ _) hg, e, he,
        hpar.trans (parent_withDefault spec default),
        hcase.trans (case_withDefault spec default), (fun _ _ h => by cases h), fun _ _ h => ?_⟩
      cases h
      exact ⟨fun _ _ hm => (hset hm).resolve_left (by simp [newElement, Element.ofSpec]), hall⟩
    · exact (ensures_true _ t₂).bind fun _ _ _ => trivial

/-- The fields of a container that has got its children are those that it had, and key leaves. -/
theorem raised_populate {registers : Bool} :
    ∀ (children : List (Child Schema)) (id : ElementId) (t : Tree) (e : Element),
    t.element? id = some e → (populate id registers children).Ensures t
      (fun _ t' => Grown id t t' ∧ ∃ e', t'.element? id = some e' ∧
        (∀ {field leaf}, (field, leaf) ∈ e'.setters → (field, leaf) ∈ e.setters ∨
          t'.KeyLeaf id children field leaf) ∧
        (∀ {field}, (Assoc.get? field e.setters).isSome → (Assoc.get? field e'.setters).isSome) ∧
        SetsAll e' children)
      fun _ _ => True
  | [], id, t, e, he => by
    rw [populate]
    exact ⟨refl_of (Grown id) t, e, he, .inl, fun h => h, fun _ hm => by cases hm⟩
  | ⟨name, case, node⟩ :: rest, id, t, e, he => by
    rw [populate]
    refine (raised_build node { name, parent := some id, registers, case } t).bind fun c t₁ h₁ => ?_
    obtain ⟨ce, hce, hcpar, hccase, hleaf, -⟩ := h₁.element
    have hid : id ≠ c := by
      rw [h₁.id_eq]
      rintro rfl
      exact Nat.lt_irrefl _ (index_lt_of_element? he)
    obtain ⟨e₁, he₁, -, -, -, hset₁⟩ := h₁.grown.element he
    have hg₁ : Grown id t t₁ := h₁.grown.of_new (by rw [h₁.id_eq]) id
    rw [ensures_bind, ensures_update]
    refine ⟨fun _ _ => ?_, fun _ => trivial⟩
    have hg₂ := grown_addField id t₁ name case node.isLeaf c
    have he₂ := element?_modifyElement_self (f := addField name case node.isLeaf c) he₁
    refine (raised_populate rest id _ _ he₂).mono (fun _ t₃ h₃ => ?_) fun _ _ _ => trivial
    obtain ⟨hg₃, e₃, he₃, hset₃, hstay₃, hall₃⟩ := h₃
    refine ⟨trans_of (Grown id) hg₁ (trans_of (Grown id) hg₂ hg₃), e₃, he₃,
      fun {field leaf} hm => ?_, fun {field} hs => hstay₃ ?_, fun child hm hnode => ?_⟩
    · obtain hm | hkey := hset₃ hm
      · by_cases hnode : node.isLeaf = true
        · simp only [addField, hnode, ↓reduceIte] at hm
          obtain hm | hm := Assoc.mem_of_mem_insert hm
          · obtain ⟨rfl, rfl⟩ := Prod.mk.inj hm
            obtain ⟨type, default, rfl⟩ : ∃ type default, node = .leaf type default := by
              cases node <;> simp [Schema.isLeaf] at hnode ⊢
            exact .inr (KeyLeaf.grown
              ⟨ce, { type }, default, hce, hcpar, hleaf _ _ rfl, hccase ▸ List.mem_cons_self⟩
              (trans_of (Grown id) hg₂ hg₃))
          · exact .inl (hset₁ hid ▸ hm)
        · simp only [addField, hnode, Bool.false_eq_true, ↓reduceIte] at hm
          exact .inl (hset₁ hid ▸ hm)
      · exact .inr (hkey.mono (List.subset_cons_self _ _))
    · -- A field that is entered again goes to another leaf, but does not go.
      rw [← hset₁ hid] at hs
      show (Assoc.get? field
        (if node.isLeaf then Assoc.insert name c e₁.setters else e₁.setters)).isSome
      split
      · by_cases hname : field = name
        · rw [hname, Assoc.get?_insert_self]
          rfl
        · rwa [Assoc.get?_insert_of_ne hname]
      · exact hs
    · obtain rfl | hm := List.mem_cons.1 hm
      · refine hstay₃ ?_
        simp only [addField, hnode, ↓reduceIte, Assoc.get?_insert_self, Option.isSome_some]
      · exact hall₃ child hm hnode

end

end DataTree.Tree
