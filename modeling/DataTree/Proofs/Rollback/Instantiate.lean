import DataTree.Proofs.Links.Owned
import DataTree.Proofs.Rollback.Saves

/-!
# DataTree.Proofs.Rollback.Instantiate

A subtree that cannot be built leaves no trace.

Around the new subtree the tree may be in any state that a session leads to: there may be
elements that their parents do not list, and lists with entries that are gone.  Only from
the root of the subtree on, in the slots behind all others, everything is linked both ways
(`Tree.Grove`).  So a half-built container can be removed with all that is below it,
and this restores the tree as it was before the container was made
(`Grafted.remove`).  What was registered meanwhile goes with the elements
(`Tree.Accounts`), and what was registered before stays in its order (`Tree.Saves`).
-/

namespace DataTree.Tree

open Edit Outcome

variable {t t' t₁ t₂ : Tree} {id c p x root : ElementId} {e : Element} {spec : ElementSpec}
  {content : Content}

/-! ## Groves -/

/-- In the slot of the root and behind it, what is listed is there, and what is there, but for the
root, has its parent there and is listed by it. -/
structure Grove (t : Tree) (root : ElementId) : Prop where
  below : ∀ {p c}, root.index ≤ p.index → t.Above p c → (t.element? c).isSome
  listed : ∀ {x e}, root.index < x.index → t.element? x = some e →
    ∃ p, e.parent = some p ∧ root.index ≤ p.index ∧ t.Above p x

namespace Grove

theorem index_lt (h : t.Grove root) (ho : t.Owned) (hp : root.index ≤ p.index) (ha : t.Above p c) :
    p.index < c.index := by
  obtain ⟨ce, hce⟩ := Option.isSome_iff_exists.1 (h.below hp ha)
  exact ho.parent_lt hce (ho.owned ha hce)

theorem index_le_of_under (h : t.Grove root) (ho : t.Owned) (hu : t.Under root x) :
    root.index ≤ x.index := by
  induction hu with
  | refl => exact Nat.le_refl _
  | tail _ ha ih => exact Nat.le_trans ih (Nat.le_of_lt (h.index_lt ho ih ha))

/-- Everything behind the root is under it. -/
theorem under (h : t.Grove root) (ho : t.Owned) (hx : t.element? x = some e)
    (hle : root.index ≤ x.index) : t.Under root x := by
  induction hn : x.index using Nat.strongRecOn generalizing x e with
  | ind n ih =>
    by_cases heq : root.index = x.index
    · have hid : x = root := by
        obtain ⟨i⟩ := root
        obtain ⟨j⟩ := x
        exact congrArg ElementId.mk heq.symm
      exact hid ▸ .refl
    · obtain ⟨p, hpar, hle', ha⟩ := h.listed (Nat.lt_of_le_of_ne hle heq) hx
      have ⟨pe, hpe, _⟩ := ha
      exact (ih p.index (hn ▸ ho.parent_lt hx hpar) hpe hle' rfl).tail ha

/-- The root can be removed, and everything behind it goes with it. -/
theorem ensures_removeSubtree (h : t.Grove root) (ho : t.Owned) (he : t.element? root = some e) :
    (removeSubtree root).Ensures t
      (fun _ t' => (∀ x, root.index ≤ x.index → t'.element? x = none) ∧
        ∀ x, x.index < root.index → t'.element? x = (t.detach e).element? x)
      fun _ _ => False := by
  have hdown : ∀ {p c}, t.Under root p → t.Above p c → p.index < c.index ∧
      (t.element? c).isSome := by
    intro p c hu ha
    have hle := h.index_le_of_under ho hu
    exact ⟨h.index_lt ho hle ha, h.below hle ha⟩
  obtain ⟨doomed, hd⟩ := exists_subtreeFrom (by rw [he]; rfl) hdown (Nat.le_add_left _ root.index)
  have hmem : ∀ x, x ∈ doomed ↔ t.Under root x := fun x => mem_subtreeFrom_iff hd
  rw [removeSubtree, ensures_reading_bind]
  refine ⟨fun doomed' hd' => ?_, fun err herr => ?_⟩
  · obtain rfl : doomed = doomed' := Except.ok.inj (hd.symm.trans hd')
    rw [ensures_get_bind_of he]
    rw [ensures_changing]
    have hel := (foldl_drop doomed (t.detach e)).1
    refine ⟨fun x hle => ?_, fun x hlt => ?_⟩
    · rw [hel]
      split
      · rfl
      · next hx =>
        cases hxe : t.element? x with
        | none =>
          rw [element?_detach, hxe]
          split <;> rfl
        | some xe => exact absurd ((hmem x).2 (h.under ho hxe hle)) hx
    · rw [hel, if_neg fun hx => ?_]
      have hle := h.index_le_of_under ho ((hmem x).1 hx)
      omega
  · rw [show t.subtree root = .ok doomed from hd] at herr
    cases herr

end Grove

/-! ## What a build leaves -/

/-- No child of the parent has the name of the new element. -/
def Vacant (t : Tree) (spec : ElementSpec) : Prop :=
  ∀ p pe, spec.parent = some p → t.element? p = some pe → spec.name ∉ Assoc.keys pe.children

/-- A new subtree stands behind everything else, and nothing but the link to it has changed before
it. -/
structure Planted (t : Tree) (spec : ElementSpec) (id : ElementId) (t' : Tree) : Prop where
  id_eq : id = ⟨t.slots.size⟩
  hasParent : t.HasParent spec
  owned : t'.Owned
  grove : t'.Grove id
  element : ∃ e, t'.element? id = some e ∧ e.name = spec.name ∧ e.parent = spec.parent
  older : ∀ {x}, x.index < t.slots.size → t'.element? x = (t.link spec).element? x
  size_lt : t.slots.size < t'.slots.size
  madeKeys : t'.madeKeys = t.madeKeys

/-- Children were added below a container, and before it nothing has changed. -/
structure Grafted (t : Tree) (id : ElementId) (e : Element) (t' : Tree) : Prop where
  owned : t'.Owned
  grove : t'.Grove id
  element : ∃ e', t'.element? id = some e' ∧ e'.name = e.name ∧ e'.parent = e.parent ∧
    e'.content = e.content
  older : ∀ {x}, x.index < id.index → t'.element? x = t.element? x
  size_le : t.slots.size ≤ t'.slots.size
  madeKeys : t'.madeKeys = t.madeKeys

/-- Making a single element; without its parent nothing is made. -/
theorem ensures_plant (hlinks : content.links = []) (spec : ElementSpec) (ho : t.Owned) :
    (wrap content spec).Ensures t
      (fun id t' => t.Planted spec id t' ∧ t'.element? id = some (t.newElement content spec))
      fun _ t' => t' = t := by
  refine ensures_wrap_of (fun hparent => ?_) fun _ _ => rfl
  have hon := on_wrap content hparent
  have howned := owned_wrap hlinks spec t ho
  rw [hon] at howned
  have hself : ((t.link spec).place (t.newElement content spec)).element? ⟨t.slots.size⟩
      = some (t.newElement content spec) := element?_made_self
  refine ⟨?_, hself⟩
  exact
    { id_eq := rfl
      hasParent := hparent
      owned := howned
      grove :=
        { below := fun {p c} hp ha => by
            obtain ha | ⟨-, hpar⟩ := above_made hlinks ha
            · obtain ⟨pe, hpe, -⟩ := ha
              exact absurd (index_lt_of_element? hpe) (Nat.not_lt.2 hp)
            · obtain ⟨pe, hpe⟩ := hparent p hpar
              exact absurd (index_lt_of_element? hpe) (Nat.not_lt.2 hp)
          listed := fun {x e} hx he => by
            have hlt := index_lt_of_element? he
            simp only [slots_place, Array.size_push, size_slots_link] at hlt hx
            omega }
      element := ⟨_, hself, rfl, rfl⟩
      older := fun {x} hx => by
        rw [element?_place, size_slots_link, if_neg]
        rintro rfl
        exact Nat.lt_irrefl _ hx
      size_lt := by simp
      madeKeys := by simp }

/-- Removing a half-built container restores the tree as it was before. -/
theorem Grafted.remove (ho : t.Owned) (hv : t.Vacant spec) (hb : t.Planted spec id t₁)
    (he : t₁.element? id = some e) (hf : t₁.Grafted id e t₂) :
    (removeSubtree id).Ensures t₂ (fun _ t' => t'.Owned ∧ t.Restores t') fun _ _ => False := by
  obtain ⟨e₂, he₂, hname, hpar, -⟩ := hf.element
  obtain ⟨e₁, he₁, hname₁, hpar₁⟩ := hb.element
  obtain rfl : e = e₁ := Option.some.inj (he.symm.trans he₁)
  obtain rfl := hb.id_eq
  refine ((hf.grove.ensures_removeSubtree hf.owned he₂).and
    ((shrinks_removeSubtree ⟨t.slots.size⟩).ensures t₂)).mono (fun _ t' h => ?_) fun _ _ h => h.1
  obtain ⟨⟨hgone, hstays⟩, hs⟩ := h
  refine ⟨hf.owned.shrinks hs, ?_, ?_, fun x => ?_⟩
  · rw [hs.size]
    exact Nat.le_trans (Nat.le_of_lt hb.size_lt) hf.size_le
  · rw [hs.madeKeys, hf.madeKeys, hb.madeKeys]
  by_cases hx : x.index < t.slots.size
  · rw [hstays x hx, element?_detach, hf.older hx, hb.older hx, element?_link, hf.owned.id_eq he₂,
      hpar, hpar₁, hname, hname₁]
    by_cases hxp : spec.parent = some x
    · rw [if_pos hxp, if_pos hxp]
      obtain ⟨pe, hpe⟩ := hb.hasParent x hxp
      rw [hpe, Option.map_some, Option.map_some, detach_gain (fun _ => hv x pe hxp hpe)]
      intro _ hm
      exact Nat.lt_irrefl _ (ho.known ⟨pe, hpe, hm⟩)
    · rw [if_neg hxp, if_neg hxp]
  · rw [hgone x (Nat.le_of_not_lt hx), element?_eq_none_of_size_le (Nat.le_of_not_lt hx)]

theorem Grafted.refl (ho : t.Owned) (hg : t.Grove id) (he : t.element? id = some e) :
    t.Grafted id e t := ⟨ho, hg, ⟨e, he, rfl, rfl, rfl⟩, fun _ => rfl, Nat.le_refl _, rfl⟩

theorem Grafted.trans {e₂ : Element} (h : t.Grafted id e t₁) (he : t₁.element? id = some e₂)
    (h' : t₁.Grafted id e₂ t₂) : t.Grafted id e t₂ where
  owned := h'.owned
  grove := h'.grove
  element := by
    obtain ⟨e', he', hn, hpar, hc⟩ := h.element
    obtain rfl : e₂ = e' := Option.some.inj (he.symm.trans he')
    obtain ⟨e₃, he₃, hn', hpar', hc'⟩ := h'.element
    exact ⟨e₃, he₃, hn'.trans hn, hpar'.trans hpar, hc'.trans hc⟩
  older := fun hx => (h'.older hx).trans (h.older hx)
  size_le := Nat.le_trans h.size_le h'.size_le
  madeKeys := h'.madeKeys.trans h.madeKeys

theorem above_of_element (h : ∀ x, t'.element? x = t.element? x) : t'.Above p c ↔ t.Above p c := by
  simp only [Above, h]

/-- A child that could not be built has changed nothing about its container. -/
theorem Restores.grafted (h : t.Restores t') (ho : t'.Owned) (hg : t.Grove id)
    (he : t.element? id = some e) : t.Grafted id e t' where
  owned := ho
  grove :=
    { below := fun hp ha => by
        rw [h.element]
        exact hg.below hp ((above_of_element h.element).1 ha)
      listed := fun hx hxe => by
        obtain ⟨p, hpar, hle, ha⟩ := hg.listed hx (h.element _ ▸ hxe)
        exact ⟨p, hpar, hle, (above_of_element h.element).2 ha⟩ }
  element := ⟨e, (h.element id).trans he, rfl, rfl, rfl⟩
  older := fun _ => h.element _
  size_le := h.size_le
  madeKeys := h.madeKeys

/-- Hooks and choices are no links. -/
theorem Grove.addField (h : t.Grove root) (id : ElementId) (name : String) (case : Option Case)
    (isLeaf : Bool) (child : ElementId) :
    (t.modifyElement id (Tree.addField name case isLeaf child)).Grove root := by
  constructor
  case below =>
    intro p c hp ha
    obtain ⟨e', he', hc⟩ := ha
    obtain ⟨e, he, hcore, -⟩ := addField_cases he'
    rw [isSome_element?_modifyElement]
    exact h.below hp ⟨e, he, Element.below_of_core hcore ▸ hc⟩
  case listed =>
    intro x e' hx he'
    obtain ⟨e, he, hcore, -⟩ := addField_cases he'
    obtain ⟨p, hp, hle, pe, hpe, hm⟩ := h.listed hx he
    obtain ⟨pe', hpe', hpcore⟩ := exists_addField hpe id name case isLeaf child
    exact ⟨p, (Element.parent_of_core hcore).trans hp, hle, pe', hpe',
      Element.below_of_core hpcore ▸ hm⟩

/-! ## A child below a container -/

/-- One more child. -/
theorem mem_below_append {name : String} :
    x ∈ { e with children := e.children ++ [(name, c)] }.below ↔ x ∈ e.below ∨ x = c := by
  simp only [Element.below, List.map_append, List.map_cons, List.map_nil, List.mem_append,
    List.mem_singleton]
  tauto

namespace Planted

variable {name : String} {registers : Bool} {case' : Option Case} {child : ElementId}
  (hb : t.Planted { name, parent := some id, registers, case := case' } child t')
  (he : t.element? id = some e) (hc : e.content = .container) (hn : name ∉ Assoc.keys e.children)
include hb

/-- Before the child only its container has changed. -/
theorem older_of_ne (hx : x.index < t.slots.size) (hne : x ≠ id) :
    t'.element? x = t.element? x := by
  rw [hb.older hx, element?_link_of_ne rfl hne]

include he hc hn

theorem container_eq :
    t'.element? id = some { e with children := e.children ++ [(name, ⟨t.slots.size⟩)] } :=
  (hb.older (index_lt_of_element? he)).trans (element?_link_container rfl he hc hn)

theorem isSome (hx : (t.element? x).isSome) : (t'.element? x).isSome := by
  obtain ⟨xe, hxe⟩ := Option.isSome_iff_exists.1 hx
  by_cases hxi : x = id
  · rw [hxi, hb.container_eq he hc hn]
    rfl
  · rw [hb.older_of_ne (index_lt_of_element? hxe) hxi, hxe]
    rfl

/-- Links of the new child are its own, and the container has gained the one to it. -/
theorem above_iff (hp : p.index < t.slots.size) :
    t'.Above p c ↔ t.Above p c ∨ (p = id ∧ c = ⟨t.slots.size⟩) := by
  by_cases hpi : p = id
  · subst hpi
    simp only [Above, hb.container_eq he hc hn, he, Option.some.injEq, exists_eq_left',
      mem_below_append, true_and]
  · simp [Above, hb.older_of_ne hp hpi, hpi]

/-- The container is the root of a grove that the new one has grown into. -/
theorem grove_container (hg : t.Grove id) : t'.Grove id := by
  obtain rfl := hb.id_eq
  have hid := index_lt_of_element? he
  obtain ⟨ce, hce, -, hcpar⟩ := hb.element
  constructor
  case below =>
    intro p c hp ha
    by_cases hlt : p.index < t.slots.size
    · obtain ha | ⟨-, rfl⟩ := (hb.above_iff he hc hn hlt).1 ha
      · exact hb.isSome he hc hn (hg.below hp ha)
      · rw [hce]
        rfl
    · exact hb.grove.below (Nat.not_lt.1 hlt) ha
  case listed =>
    intro x xe hx hxe
    obtain hlt | heq | hgt := Nat.lt_trichotomy x.index t.slots.size
    · have hne : x ≠ id := fun hxi => Nat.lt_irrefl _ (hxi ▸ hx)
      obtain ⟨p, hpar, hle, ha⟩ := hg.listed hx (hb.older_of_ne hlt hne ▸ hxe)
      have ⟨_, hpe, _⟩ := ha
      exact ⟨p, hpar, hle, (hb.above_iff he hc hn (index_lt_of_element? hpe)).2 (.inl ha)⟩
    · obtain ⟨i⟩ := x
      obtain rfl : i = t.slots.size := heq
      obtain rfl : ce = xe := Option.some.inj (hce.symm.trans hxe)
      exact ⟨id, hcpar, Nat.le_refl _, (hb.above_iff he hc hn hid).2 (.inr ⟨rfl, rfl⟩)⟩
    · obtain ⟨p, hpar, hle, ha⟩ := hb.grove.listed hgt hxe
      exact ⟨p, hpar, Nat.le_trans (Nat.le_of_lt hid) hle, ha⟩

/-- A new child with its hooks. -/
theorem addField (hg : t.Grove id) (case : Option Case) (isLeaf : Bool) :
    ∃ e', (t'.modifyElement id (Tree.addField name case isLeaf child)).element? id = some e' ∧
      Assoc.keys e'.children = Assoc.keys e.children ++ [name] ∧
      t.Grafted id e (t'.modifyElement id (Tree.addField name case isLeaf child)) := by
  have hid := index_lt_of_element? he
  have hmod := element?_modifyElement_self (f := Tree.addField name case isLeaf child)
    (hb.container_eq he hc hn)
  refine ⟨_, hmod, by simp [Tree.addField, Assoc.keys], ?_⟩
  exact
    { owned := hb.owned.modifyElement fun _ _ => ⟨rfl, rfl, fun _ hc => .inl hc⟩
      grove := (hb.grove_container he hc hn hg).addField _ _ _ _ _
      element := ⟨_, hmod, rfl, rfl, rfl⟩
      older := fun {x} hx => by
        have hne : x ≠ id := fun hxi => Nat.lt_irrefl _ (hxi ▸ hx)
        rw [element?_modifyElement_of_ne hne, hb.older_of_ne (Nat.lt_trans hx hid) hne]
      size_le := by
        rw [size_slots_modifyElement]
        exact Nat.le_of_lt hb.size_lt
      madeKeys := hb.madeKeys }

end Planted

/-! ## Whole subtrees -/

/-- Only the name and the parent of a description matter for where the element stands. -/
theorem Planted.congr {spec' : ElementSpec} (h : t.Planted spec id t') (hn : spec'.name = spec.name)
    (hp : spec'.parent = spec.parent) : t.Planted spec' id t' where
  id_eq := h.id_eq
  hasParent := fun p hpar => h.hasParent p (hp ▸ hpar)
  owned := h.owned
  grove := h.grove
  element := by rw [hn, hp]; exact h.element
  older := fun hx => by
    rw [h.older hx, element?_link, element?_link, hn, hp]
  size_lt := h.size_lt
  madeKeys := h.madeKeys

/-- Making a single element for a node. -/
theorem ensures_plant_node {spec' : ElementSpec} (ho : t.Owned) (hlinks : content.links = [])
    (hn : spec'.name = spec.name) (hp : spec'.parent = spec.parent) :
    (wrap content spec').Ensures t (t.Planted spec) fun _ t' => t'.Owned ∧ t.Restores t' :=
  (ensures_plant hlinks spec' ho).mono (fun _ _ hb => hb.1.congr hn.symm hp.symm)
    fun _ _ hf => hf.symm ▸ ⟨ho, .refl t⟩

theorem Planted.grafted (h : t.Planted spec id t₁) (he : t₁.element? id = some e)
    (hf : t₁.Grafted id e t₂) : t.Planted spec id t₂ := by
  obtain rfl := h.id_eq
  exact
    { id_eq := rfl
      hasParent := h.hasParent
      owned := hf.owned
      grove := hf.grove
      element := by
        obtain ⟨e₁, he₁, hn, hpar⟩ := h.element
        obtain rfl : e = e₁ := Option.some.inj (he.symm.trans he₁)
        obtain ⟨e₂, he₂, hn', hpar', -⟩ := hf.element
        exact ⟨e₂, he₂, hn'.trans hn, hpar'.trans hpar⟩
      older := fun hx => (hf.older hx).trans (h.older hx)
      size_lt := Nat.lt_of_lt_of_le h.size_lt hf.size_le
      madeKeys := hf.madeKeys.trans h.madeKeys }

mutual

/-- A subtree is planted behind everything else, or the elements are what they were. -/
theorem ensures_planted : ∀ (schema : Schema), schema.Distinct →
    ∀ {t : Tree} {spec : ElementSpec}, t.Owned → t.Vacant spec →
      (build schema spec).Ensures t (t.Planted spec) fun _ t' => t'.Owned ∧ t.Restores t'
  | .leaf type default, _, t, spec, ho, _ => by
    rw [build, ensures_ofExcept_bind]
    exact ⟨fun _ _ => ensures_plant_node ho rfl (by simp) (by simp), fun _ _ => ⟨ho, .refl t⟩⟩
  | .leafList type default, _, t, spec, ho, _ => by
    rw [build]
    exact ensures_plant_node ho rfl (by simp) (by simp)
  | .container children default, hd, t, spec, ho, hv => by
    rw [Schema.distinct_container] at hd
    rw [build]
    refine ((ensures_plant rfl _ ho).mono (fun _ _ hb => hb)
      fun _ _ hf => hf.symm ▸ ⟨ho, .refl t⟩).bind fun id t₁ hb => ?_
    obtain ⟨hb, he⟩ := hb
    obtain ⟨e, hc, hchildren, he⟩ : ∃ e, e.content = .container ∧ e.children = [] ∧
        t₁.element? id = some e := ⟨_, rfl, rfl, he⟩
    have hb : t.Planted spec id t₁ := hb.congr (by simp) (by simp)
    have hp := ensures_grafted spec.registers children hd.2 hd.1 hb.owned hb.grove he hc
      (by simp [hchildren, Assoc.keys])
    have hstep : (orRemove id (populate id spec.registers children)).Ensures t₁
        (fun _ => t₁.Grafted id e) fun _ t₂ => t₂.Owned ∧ t.Restores t₂ := by
      rw [orRemove, ensures_tryCatch]
      refine hp.mono (fun _ _ hf => hf) fun err t₂ hf => ?_
      exact ((hf.remove ho hv hb he).mono (fun _ _ hr => hr) fun _ _ hf => hf.elim).bind
        fun _ t₃ hr => hr
    exact hstep.bind fun _ t₂ hf => hb.grafted he hf
  | .list list default, _, t, spec, ho, _ => by
    rw [build]
    exact ensures_plant_node ho rfl (by simp) (by simp)

theorem ensures_grafted (registers : Bool) :
    ∀ (children : List (Child Schema)), Schema.AllDistinct children →
    (children.map Child.name).Nodup →
    ∀ {t : Tree} {id : ElementId} {e : Element}, t.Owned → t.Grove id → t.element? id = some e →
      e.content = .container → (∀ c ∈ children, c.name ∉ Assoc.keys e.children) →
      (populate id registers children).Ensures t (fun _ => t.Grafted id e) fun _ => t.Grafted id e
  | [], _, _, t, id, e, ho, hg, he, _, _ => by
    rw [populate]
    exact .refl ho hg he
  | ⟨name, case, node⟩ :: rest, hd, hn, t, id, e, ho, hg, he, hc, hnew => by
    rw [Schema.AllDistinct] at hd
    rw [List.map_cons, List.nodup_cons] at hn
    have hname : name ∉ Assoc.keys e.children := hnew ⟨name, case, node⟩ List.mem_cons_self
    rw [populate]
    have hv : t.Vacant { name, parent := some id, registers, case } := by
      intro p pe hp hpe
      obtain rfl := Option.some.inj hp
      obtain rfl : e = pe := Option.some.inj (he.symm.trans hpe)
      exact hname
    refine Ensures.bind ((ensures_planted node hd.1 ho hv).mono (fun _ _ hb => hb)
      fun _ t' hf => hf.2.grafted hf.1 hg he) fun child t₁ hb => ?_
    obtain ⟨e₂, he₂, hkeys, hf⟩ := hb.addField he hc hname hg case node.isLeaf
    obtain ⟨e₁, he₁, -⟩ := modifyElement_cases he₂
    rw [ensures_bind, ensures_update_of he₁]
    obtain ⟨e', he', -, -, hc₂⟩ := hf.element
    obtain rfl : e₂ = e' := Option.some.inj (he₂.symm.trans he')
    exact (ensures_grafted registers rest hd.2 hn.2 hf.owned hf.grove he₂ (hc₂.trans hc)
      (fresh_rest hn.1 hnew hkeys)).mono (fun _ _ hf' => hf.trans he₂ hf') fun _ _ hf' =>
        hf.trans he₂ hf'

end

/-! ## Instantiating -/

/-- Once a subtree is built it is read back and told about, and neither can fail. -/
theorem ensures_instantiate {schema : Blueprint} (ho : t.Owned) (hv : t.Vacant spec) :
    (instantiate schema spec).Ensures t (fun _ _ => True)
      fun err t' => (build schema spec).on (t.tell (.instantiating spec.name)) = (.error err, t') ∧
        t.Restores t' := by
  have htold : (t.tell (.instantiating spec.name)).Owned := ho.of_slots rfl
  have hbuild := ensures_planted schema.root schema.distinct htold hv
  unfold instantiate
  rw [ensures_changing_bind]
  refine ((hbuild.and (ensures_on _ _)).mono (fun _ _ hb => hb)
    fun err t' hf => ⟨hf.2, hf.1.2.size_le, hf.1.2.madeKeys, hf.1.2.element⟩).bind
      fun id t₁ hb => ?_
  obtain ⟨hb, -⟩ := hb
  obtain ⟨e, he, -⟩ := hb.element
  obtain ⟨built, hbuilt⟩ : ∃ built, t₁.subtree id = .ok built := by
    refine exists_subtreeFrom (by rw [he]; rfl) (fun hu ha => ?_) (Nat.le_add_left _ _)
    have hle := hb.grove.index_le_of_under hb.owned hu
    exact ⟨hb.grove.index_lt hb.owned hle ha, hb.grove.below hle ha⟩
  rw [ensures_reading_bind_of hbuilt, ensures_get_bind_of he]
  trivial

/-- **A failed instantiation leaves no trace**: in every state that a session leads to, whatever the
schema is and wherever the subtree is to stand, as long as no child of its parent has its name, if
instantiating fails, then the elements, their number and the registry are what they were. -/
theorem instantiate_traceless {schema : Blueprint} {err : Error} (h : Reaches Unrestricted {} t)
    (hv : t.Vacant spec) (hfail : (instantiate schema spec).on t = (.error err, t')) :
    (∀ x, t'.element? x = t.element? x) ∧ t'.live = t.live ∧ t'.registry = t.registry := by
  obtain ⟨ho, hcount⟩ := owned_of_reaches h
  obtain ⟨hbuild, hrestores⟩ := (ensures_instantiate ho hv).of_error hfail
  have hacc := accounts_of_reaches h
  have htold : (t.tell (.instantiating spec.name)).Accounts t.slots.size := hacc.of_slots rfl rfl
  have hsaves := saves_accounts (accounts_build schema spec) (saves_build schema spec) _ htold
  have hcount' :=
    counted_build schema spec (t.tell (.instantiating spec.name)) (hcount.of_slots rfl rfl)
  rw [hbuild] at hsaves hcount'
  obtain ⟨hacc', hsaves⟩ := hsaves
  refine ⟨hrestores.element, ?_, ?_⟩
  · calc t'.live = t'.ids.length := hcount'
      _ = t.ids.length := length_ids_congr fun x => by rw [hrestores.element]
      _ = t.live := hcount.symm
  · rw [← hacc'.before_registry fun x hx =>
      (hrestores.element x).trans (element?_eq_none_of_size_le hx),
      hsaves.registry (covers_of_element fun _ => hrestores.element _),
      ← hacc.before_registry fun _ hx => element?_eq_none_of_size_le hx]
    rfl

/-! ## A session -/

/-- A port whose default speed is no number. -/
def port : Blueprint :=
  .container [⟨"name", none, .leaf .string⟩,
    ⟨"link", none, .container [⟨"speed", none, .leaf .uint8 (.text "fast")⟩]⟩]

/-- Where the port is to stand. -/
def portSpec : ElementSpec := { name := "port", parent := some ⟨0⟩, registers := true }

/-- A device with a leaf that is registered at the path which the name of the port would have. -/
def crowded : Tree :=
  let device :=
    (Operation.wrap .container { name := "device", registers := true } .container).after {}
  (Operation.wrap (.leaf { type := .string })
    { name := "label", parent := some ⟨0⟩, registers := true, registerPath := some "/port/name" }
    (.leaf _)).after device

theorem reaches_crowded : Reaches Unrestricted {} crowded := by
  have hstart : Reaches Unrestricted {} {} := .refl
  have hdevice := hstart.andThen
    (.wrap .container { name := "device", registers := true } .container) trivial
  exact hdevice.andThen (.wrap (.leaf { type := .string })
    { name := "label", parent := some ⟨0⟩, registers := true, registerPath := some "/port/name" }
    (.leaf _)) trivial

/-- The port cannot be made, and the leaf is still registered where it was, and nothing else
there. -/
theorem instantiate_traceless_crowded :
    ∃ err t', (instantiate port portSpec).on crowded = (.error err, t') ∧
    (∀ x, t'.element? x = crowded.element? x) ∧ t'.live = crowded.live ∧
    t'.registry = crowded.registry := by
  have hvacant : crowded.Vacant portSpec := by
    intro p pe hp hpe
    obtain rfl : ⟨0⟩ = p := Option.some.inj hp
    have hnames : (crowded.element? ⟨0⟩).all (fun e => "port" ∉ Assoc.keys e.children) = true := by
      decide +kernel
    rw [hpe] at hnames
    exact of_decide_eq_true hnames
  have hfails : ((instantiate port portSpec).on crowded).1.toOption = none := by decide +kernel
  cases hr : (instantiate port portSpec).on crowded with
  | mk r t' =>
    cases r with
    | error err => exact ⟨err, t', rfl, instantiate_traceless reaches_crowded hvacant hr⟩
    | ok id =>
      rw [hr] at hfails
      cases hfails

end DataTree.Tree
