import DataTree.Proofs.Contents
import DataTree.Proofs.Structure.Growth
import DataTree.Proofs.Structure.Removal

/-!
# DataTree.Proofs.Structure.Build

Building keeps a sound structure.

A subtree that is built takes the slots behind all others, so everything in these
slots is under its root (`under_of_rooted`).  If building fails, removing the root
therefore removes everything that was built, and all elements are what they were
before (`Restores`).
-/

namespace DataTree

open Edit Outcome

/-- Whether a node describes a container. -/
def Schema.isContainer : Schema → Bool
  | container _ _ => true
  | _ => false

namespace Tree

variable {t t' : Tree} {pending : Set ElementId} {id x : ElementId} {e : Element}
  {spec : ElementSpec} {content : Content}

/-! ## Where an element fits -/

/-- A description fits a tree: the parent is there, and if it is a container then
the child's name is new to it and its path is the one below the parent. -/
structure Fits (t : Tree) (spec : ElementSpec) : Prop where
  hasParent : t.HasParent spec
  fresh : ∀ {p pe}, spec.parent = some p → t.element? p = some pe → pe.content = .container →
    spec.name ∉ Assoc.keys pe.children ∧ spec.registerPath = none

/-- A new element is pending unless its parent, if it has one, is a container. -/
def pendingFor (t : Tree) (spec : ElementSpec) : Set ElementId :=
  { x | x = ⟨t.slots.size⟩ ∧
    ∃ p pe, spec.parent = some p ∧ t.element? p = some pe ∧ pe.content ≠ .container }

/-- A new child fits its container. -/
theorem fits_child {name : String} (registers : Bool) (case : Option Case)
    (he : t.element? id = some e) (hn : name ∉ Assoc.keys e.children) :
    t.Fits { name, parent := some id, registers, case } := by
  refine ⟨fun p hp => ⟨e, Option.some.inj hp ▸ he⟩, fun {p pe} hp hpe _ => ⟨?_, rfl⟩⟩
  obtain rfl := Option.some.inj hp
  obtain rfl : e = pe := Option.some.inj (he.symm.trans hpe)
  exact hn

/-- An element that is made with a fresh content is new. -/
theorem isNew_newElement (h : t.HasParent spec) (hb : content.IsFresh) :
    t.IsNew (t.newElement content spec) where
  id := rfl
  parent := fun hp => h _ hp
  children := rfl
  links := hb.links
  setters := rfl
  unsetters := rfl
  distinct := hb.distinct

theorem pendingFor_of_none (hp : spec.parent = none) : t.pendingFor spec = ∅ := by
  ext x
  simp [pendingFor, hp]

theorem pendingFor_of_container {p : ElementId} {pe : Element} (hp : spec.parent = some p)
    (hpe : t.element? p = some pe) (hc : pe.content = .container) : t.pendingFor spec = ∅ := by
  ext x
  simp [pendingFor, hp, hpe, hc]

theorem pendingFor_of_ne {p : ElementId} {pe : Element} (hp : spec.parent = some p)
    (hpe : t.element? p = some pe) (hc : pe.content ≠ .container) :
    t.pendingFor spec = {⟨t.slots.size⟩} := by
  ext x
  simp [pendingFor, hp, hpe, hc]

/-- No slot that was never taken is pending. -/
theorem Sound.not_mem_pending (h : Sound t pending) : (⟨t.slots.size⟩ : ElementId) ∉ pending := by
  intro hm
  obtain ⟨xe, p, hxe, -⟩ := h.pending hm
  exact Nat.lt_irrefl _ (index_lt_of_element? hxe)

/-- Making an element where it fits keeps the structure sound. -/
theorem Sound.wrap (h : Sound t pending) (hfit : t.Fits spec) (hb : content.IsFresh) :
    Sound ((t.link spec).place (t.newElement content spec)) (pending ∪ t.pendingFor spec) := by
  have hplace := h.place (isNew_newElement hfit.hasParent hb)
  cases hp : spec.parent with
  | none =>
    have hlink : t.link spec = t := by simp [link, hp]
    have hset : { x : ElementId | x = ⟨t.slots.size⟩ ∧
        (t.newElement content spec).parent ≠ none } = ∅ := by
      ext x
      simp [newElement, Element.ofSpec, hp]
    rw [hset] at hplace
    rwa [hlink, pendingFor_of_none hp]
  | some p =>
    obtain ⟨pe, hpe⟩ := hfit.hasParent p hp
    have hset : { x : ElementId | x = ⟨t.slots.size⟩ ∧ (t.newElement content spec).parent ≠ none }
        = {⟨t.slots.size⟩} := by
      ext x
      simp [newElement, Element.ofSpec, hp]
    rw [hset] at hplace
    have hpne : p ≠ ⟨t.slots.size⟩ := by
      rintro rfl
      exact Nat.lt_irrefl _ (index_lt_of_element? hpe)
    have hpe' : (t.place (t.newElement content spec)).element? p = some pe := by
      rw [element?_place, if_neg hpne, hpe]
    rw [place_link hp hpe]
    by_cases hcont : pe.content = .container
    · obtain ⟨hname, hpath⟩ := hfit.fresh hp hpe hcont
      have hself := (t.element?_place (t.newElement content spec) ⟨t.slots.size⟩).trans (if_pos rfl)
      have hg := hplace.gain spec.name hpe' hcont hname hself hp rfl
        (by simp [newElement, Element.ofSpec, parentPath, hp, hpe, hpath, pathFor])
      have hdiff : (pending ∪ {⟨t.slots.size⟩}) \ {⟨t.slots.size⟩} = pending :=
        Set.union_sdiff_cancel_right fun x hx =>
          h.not_mem_pending (Set.mem_singleton_iff.1 hx.2 ▸ hx.1)
      rwa [hdiff, ← Set.union_empty pending, ← pendingFor_of_container hp hpe hcont] at hg
    · rw [pendingFor_of_ne hp hpe hcont]
      refine hplace.sameFrame (sameFrame_modifyElement fun e' he' => ?_)
      obtain rfl : pe = e' := Option.some.inj (hpe'.symm.trans he')
      rw [Element.gain, if_neg fun hc => hcont (Content.isContainer_iff.1 hc)]

/-! ## What a build leaves -/

/-- Behind slot `id` every element has its parent in that slot or behind it. -/
def Rooted (t : Tree) (id : ElementId) : Prop :=
  ∀ {x e}, t.element? x = some e → id.index < x.index →
    ∃ p, e.parent = some p ∧ id.index ≤ p.index

/-- It depends on the parents only, and fewer elements do no harm. -/
theorem Rooted.congr (h : t.Rooted id)
    (hback : ∀ {x e'}, t'.element? x = some e' →
      ∃ e, t.element? x = some e ∧ e'.parent = e.parent) :
    t'.Rooted id := by
  intro x e' he' hlt
  obtain ⟨e, he, hpar⟩ := hback he'
  obtain ⟨p, hp, hle⟩ := h he hlt
  exact ⟨p, hpar.trans hp, hle⟩

theorem Rooted.shrinks (h : t.Rooted id) (hs : t.Shrinks t') : t'.Rooted id :=
  h.congr fun he' => by
    obtain ⟨e, he, hse⟩ := hs.element he'
    exact ⟨e, he, Element.parent_of_bare hse.bare⟩

/-- What is in the slot of a root or behind is under the root. -/
theorem under_of_rooted (h : Sound t pending) (hr : t.Rooted id)
    (hp : ∀ x ∈ pending, x.index ≤ id.index) (hx : t.element? x = some e)
    (hle : id.index ≤ x.index) : t.Under id x := by
  induction hn : x.index using Nat.strongRecOn generalizing x e with
  | ind n ih =>
    by_cases heq : id.index = x.index
    · have hid : x = id := by
        obtain ⟨i⟩ := id
        obtain ⟨j⟩ := x
        exact congrArg ElementId.mk heq.symm
      exact hid ▸ .refl
    · obtain ⟨p, hpar, hle'⟩ := hr hx (by omega)
      have hpend : x ∉ pending := fun hm => by
        have := hp x hm
        omega
      have habove := h.listed hx hpar hpend
      have ⟨pe, hpe, _⟩ := habove
      have hlt := h.parent_lt hx hpar
      exact (ih p.index (by omega) hpe hle' rfl).tail habove

/-- The later tree has the same elements, perhaps after further ones came and went. -/
structure Restores (t t' : Tree) : Prop where
  size_le : t.slots.size ≤ t'.slots.size
  madeKeys : t'.madeKeys = t.madeKeys
  element : ∀ x, t'.element? x = t.element? x

/-- The root of a new subtree stands behind everything else, and nothing but the
link to it has changed before it. -/
structure Built (t : Tree) (spec : ElementSpec) (isContainer : Bool) (pending : Set ElementId)
    (id : ElementId) (t' : Tree) : Prop where
  id_eq : id = ⟨t.slots.size⟩
  sound : Sound t' (pending ∪ t.pendingFor spec)
  element : ∃ e, t'.element? id = some e ∧ e.name = spec.name ∧ e.parent = spec.parent ∧
    e.path = pathFor spec (t.parentPath spec) ∧ e.content.isContainer = isContainer
  older : ∀ {x}, x.index < t.slots.size → t'.element? x = (t.link spec).element? x
  rooted : t'.Rooted id
  size_lt : t.slots.size < t'.slots.size
  madeKeys : t'.madeKeys = t.madeKeys

/-- Making an element where it fits cannot fail. -/
theorem ensures_wrap (content : Content) (h : Sound t pending) (hfit : t.Fits spec)
    (hb : content.IsFresh) :
    (wrap content spec).Ensures t
      (fun id t' => t.Built spec content.isContainer pending id t' ∧
        t'.element? id = some (t.newElement content spec)) fun _ _ => False := by
  rw [ensures_of_ok (on_wrap content hfit.hasParent)]
  refine ⟨?_, by rw [element?_place, size_slots_link, if_pos rfl]⟩
  exact
    { id_eq := rfl
      sound := h.wrap hfit hb
      element := ⟨t.newElement content spec, by rw [element?_place, size_slots_link, if_pos rfl],
        rfl, rfl, rfl, rfl⟩
      older := fun {x} hx => by
        rw [element?_place, size_slots_link, if_neg fun hxi => ?_]
        subst hxi
        exact Nat.lt_irrefl _ hx
      rooted := fun {x e} hx hlt => by
        have hlt' := index_lt_of_element? hx
        simp only [slots_place, Array.size_push, size_slots_link] at hlt'
        simp only at hlt
        omega
      size_lt := by simp
      madeKeys := by simp }

/-! ## Children -/

/-- Children were added below a container, and before it nothing has changed. -/
structure Populated (t : Tree) (id : ElementId) (e : Element) (pending : Set ElementId)
    (t' : Tree) : Prop where
  sound : Sound t' pending
  element : ∃ e', t'.element? id = some e' ∧ e'.name = e.name ∧ e'.parent = e.parent ∧
    e'.path = e.path ∧ e'.content = e.content
  older : ∀ {x}, x.index < id.index → t'.element? x = t.element? x
  rooted : t'.Rooted id
  size_le : t.slots.size ≤ t'.slots.size
  madeKeys : t'.madeKeys = t.madeKeys

theorem Sound.index_lt_of_mem (h : Sound t pending) (hx : x ∈ pending) :
    x.index < t.slots.size := by
  obtain ⟨e, p, he, -⟩ := h.pending hx
  exact index_lt_of_element? he

/-- Taking back a new child or entry leaves the parent as it was. -/
theorem detach_gain {pe : Element} {name : String}
    (hname : pe.content = .container → name ∉ Assoc.keys pe.children)
    (hentry : pe.content ≠ .container → id ∉ pe.below) :
    (pe.gain name id).detach name id = pe := by
  by_cases hc : pe.content = .container
  · have hins := Assoc.insert_eq_append (hname hc) id
    have herase : Assoc.erase name (pe.children ++ [(name, id)]) = pe.children := by
      have happ : Assoc.erase name (pe.children ++ [(name, id)])
          = Assoc.erase name pe.children ++ Assoc.erase name [(name, id)] :=
        List.filter_append pe.children _
      rw [happ, Assoc.erase_of_not_mem_keys (hname hc), Assoc.erase_cons_self]
      exact List.append_nil pe.children
    have hget : Assoc.get? name (pe.children ++ [(name, id)]) = some id := by
      rw [← hins, Assoc.get?_insert_self]
    rw [Element.gain, if_pos (Content.isContainer_iff.2 hc), hins, Element.detach]
    simp only [hc, Element.child?, hget, if_true, herase]
    rw [← hc]
  · rw [Element.gain, if_neg fun h => hc (Content.isContainer_iff.1 h)]
    exact detach_eq_self (hentry hc) name

/-- Removing a half-built container restores the tree as it was before. -/
theorem Populated.remove {t₀ : Tree} {id : ElementId} (h₀ : Sound t₀ pending)
    (hfit : t₀.Fits spec) (hb : t₀.Built spec true pending id t) (he : t.element? id = some e)
    (hp : t.Populated id e (pending ∪ t₀.pendingFor spec) t') :
    (removeSubtree id).Ensures t' (fun _ t'' => Sound t'' pending ∧ t₀.Restores t'')
      fun _ _ => False := by
  obtain ⟨e', he', hname, hpar, -, -⟩ := hp.element
  obtain ⟨e₁, he₁, hname₁, hpar₁, -, -⟩ := hb.element
  obtain rfl : e = e₁ := Option.some.inj (he.symm.trans he₁)
  obtain rfl := hb.id_eq
  obtain ⟨t'', ht'', hr⟩ := hp.sound.removeSubtree he'
  have hs := shrinks_removeSubtree ⟨t₀.slots.size⟩ t'
  rw [ht''] at hs
  rw [ensures_of_ok ht'']
  have hset : (pending ∪ t₀.pendingFor spec) \ {⟨t₀.slots.size⟩} = pending := by
    ext x
    constructor
    · intro hx
      exact hx.1.resolve_right fun hm => hx.2 hm.1
    · intro hx
      refine ⟨.inl hx, fun hm => ?_⟩
      have hlt := h₀.index_lt_of_mem hx
      rw [Set.mem_singleton_iff.1 hm] at hlt
      exact Nat.lt_irrefl _ hlt
  refine ⟨hset ▸ hp.sound.removes he' hs hr, ?_, ?_, fun x => ?_⟩
  · rw [hs.size]
    exact Nat.le_trans (Nat.le_of_lt hb.size_lt) hp.size_le
  · rw [hs.madeKeys, hp.madeKeys, hb.madeKeys]
  by_cases hx : x.index < t₀.slots.size
  · have hnot : ¬ t'.Under ⟨t₀.slots.size⟩ x := fun hu => by
      have hle := hp.sound.index_le_of_under hu
      exact Nat.not_le_of_lt hx hle
    rw [hr.stays hnot, element?_detach, hp.older hx, hb.older hx, element?_link,
      hp.sound.id_eq he', hpar, hpar₁, hname, hname₁]
    by_cases hxp : spec.parent = some x
    · rw [if_pos hxp, if_pos hxp]
      obtain ⟨pe, hpe⟩ := hfit.hasParent x hxp
      rw [hpe, Option.map_some, Option.map_some, detach_gain]
      · intro hc
        exact (hfit.fresh hxp hpe hc).1
      · intro _ hm
        obtain ⟨-, ce, hce, -⟩ := h₀.of_mem_below hpe hm
        exact Nat.lt_irrefl _ (index_lt_of_element? hce)
    · rw [if_neg hxp, if_neg hxp]
  · rw [element?_eq_none_of_size_le (t := t₀) (by omega)]
    cases hxe : t'.element? x with
    | none => exact hs.element?_eq_none hxe
    | some xe =>
      refine hr.gone (under_of_rooted hp.sound hp.rooted (fun y hy => ?_) hxe ?_)
      · obtain hy | hy := hy
        · exact Nat.le_of_lt (h₀.index_lt_of_mem hy)
        · rw [hy.1]
      · exact Nat.le_of_not_lt hx

/-- A container without new children. -/
theorem Populated.refl (h : Sound t pending) (he : t.element? id = some e) (hr : t.Rooted id) :
    t.Populated id e pending t :=
  ⟨h, ⟨e, he, rfl, rfl, rfl, rfl⟩, fun _ => rfl, hr, Nat.le_refl _, rfl⟩

/-- Children are added one after the other. -/
theorem Populated.trans {t₁ t₂ t₃ : Tree} {e₂ : Element} (h : t₁.Populated id e pending t₂)
    (he : t₂.element? id = some e₂) (h' : t₂.Populated id e₂ pending t₃) :
    t₁.Populated id e pending t₃ where
  sound := h'.sound
  element := by
    obtain ⟨e', he', hn, hpar, hpath, hc⟩ := h.element
    obtain rfl : e₂ = e' := Option.some.inj (he.symm.trans he')
    obtain ⟨e₃, he₃, hn', hpar', hpath', hc'⟩ := h'.element
    exact ⟨e₃, he₃, hn'.trans hn, hpar'.trans hpar, hpath'.trans hpath, hc'.trans hc⟩
  older := fun hx => (h'.older hx).trans (h.older hx)
  rooted := h'.rooted
  size_le := Nat.le_trans h.size_le h'.size_le
  madeKeys := h'.madeKeys.trans h.madeKeys

/-- A build that failed below a container has changed nothing about it. -/
theorem Restores.populated (h : t.Restores t') (hs : Sound t' pending) (he : t.element? id = some e)
    (hr : t.Rooted id) : t.Populated id e pending t' where
  sound := hs
  element := ⟨e, (h.element id).trans he, rfl, rfl, rfl, rfl⟩
  older := fun _ => h.element _
  rooted := fun hx hlt => hr ((h.element _).symm.trans hx) hlt
  size_le := h.size_le
  madeKeys := h.madeKeys

/-- A new child with its hooks. -/
theorem Built.addField {name : String} {registers isContainer : Bool} {case' : Option Case}
    {child : ElementId} (case : Option Case) (isLeaf : Bool) (he : t.element? id = some e)
    (hc : e.content = .container) (hn : name ∉ Assoc.keys e.children) (hr : t.Rooted id)
    (hb : t.Built { name, parent := some id, registers, case := case' } isContainer
      pending child t') :
    ∃ e', (t'.modifyElement id (Tree.addField name case isLeaf child)).element? id = some e' ∧
      Assoc.keys e'.children = Assoc.keys e.children ++ [name] ∧
      t.Populated id e pending (t'.modifyElement id (Tree.addField name case isLeaf child)) := by
  obtain rfl := hb.id_eq
  have hid := index_lt_of_element? he
  have hself := (hb.older hid).trans (element?_link_container rfl he hc hn)
  have hmod :=
    element?_modifyElement_self (f := Tree.addField name case isLeaf ⟨t.slots.size⟩) hself
  have hsound := hb.sound
  rw [pendingFor_of_container rfl he hc, Set.union_empty] at hsound
  obtain ⟨ce, hce, hcname, hcpar, -, -⟩ := hb.element
  have hfield : t'.IsField id name ⟨t.slots.size⟩ := by
    refine ⟨hb.size_lt, fun ce' hce' => ?_⟩
    obtain rfl : ce = ce' := Option.some.inj (hce.symm.trans hce')
    exact ⟨hcpar, hcname⟩
  refine ⟨_, hmod, by simp [Tree.addField, Assoc.keys], ?_⟩
  exact
    { sound := hsound.addField case isLeaf hfield
      element := ⟨_, hmod, rfl, rfl, rfl, rfl⟩
      older := fun {x} hx => by
        have hne : x ≠ id := fun hxi => Nat.lt_irrefl _ (hxi ▸ hx)
        rw [element?_modifyElement_of_ne hne, hb.older (by omega), element?_link_of_ne rfl hne]
      rooted := fun {x xe} hx hlt => by
        have hne : x ≠ id := fun hxi => Nat.lt_irrefl _ (hxi ▸ hlt)
        rw [element?_modifyElement_of_ne hne] at hx
        by_cases hold : x.index < t.slots.size
        · rw [hb.older hold, element?_link_of_ne rfl hne] at hx
          exact hr hx hlt
        · by_cases hxc : x = ⟨t.slots.size⟩
          · subst hxc
            obtain rfl : ce = xe := Option.some.inj (hce.symm.trans hx)
            exact ⟨id, hcpar, Nat.le_refl _⟩
          · have hlt' : t.slots.size < x.index := by
              refine Nat.lt_of_le_of_ne (Nat.le_of_not_lt hold) fun heq => hxc ?_
              obtain ⟨i⟩ := x
              exact congrArg ElementId.mk heq.symm
            obtain ⟨p, hp, hle⟩ := hb.rooted hx hlt'
            exact ⟨p, hp, Nat.le_trans (Nat.le_of_lt hid) hle⟩
      size_le := by
        rw [size_slots_modifyElement]
        exact Nat.le_of_lt hb.size_lt
      madeKeys := hb.madeKeys }

/-! ## Whole subtrees -/

/-- Only the name, the parent and the path of a description matter for the structure. -/
theorem Fits.congr {spec' : ElementSpec} (h : t.Fits spec) (hn : spec'.name = spec.name)
    (hp : spec'.parent = spec.parent) (hr : spec'.registerPath = spec.registerPath) :
    t.Fits spec' := by
  cases spec
  cases spec'
  subst hn hp hr
  exact ⟨h.1, h.2⟩

/-- What was built depends on the name, the parent and the path of its specification. -/
theorem Built.congr {spec' : ElementSpec} {isContainer : Bool}
    (h : t.Built spec isContainer pending id t') (hn : spec'.name = spec.name)
    (hp : spec'.parent = spec.parent) (hr : spec'.registerPath = spec.registerPath) :
    t.Built spec' isContainer pending id t' := by
  cases spec
  cases spec'
  subst hn hp hr
  exact ⟨h.1, h.2, h.3, h.4, h.5, h.6, h.7⟩

@[simp] theorem name_withDefault (spec : ElementSpec) (default : Value) :
    (withDefault spec default).name = spec.name := by
  unfold withDefault; split <;> rfl

@[simp] theorem parent_withDefault (spec : ElementSpec) (default : Value) :
    (withDefault spec default).parent = spec.parent := by
  unfold withDefault; split <;> rfl

@[simp] theorem registerPath_withDefault (spec : ElementSpec) (default : Value) :
    (withDefault spec default).registerPath = spec.registerPath := by
  unfold withDefault; split <;> rfl

/-- Making a single element for a node. -/
theorem ensures_wrap_node {spec' : ElementSpec} (h : Sound t pending) (hfit : t.Fits spec)
    (hb : content.IsFresh) (hn : spec'.name = spec.name) (hp : spec'.parent = spec.parent)
    (hr : spec'.registerPath = spec.registerPath) :
    (wrap content spec').Ensures t (t.Built spec content.isContainer pending)
      fun _ t' => Sound t' pending ∧ t.Restores t' :=
  (ensures_wrap content h (hfit.congr hn hp hr) hb).mono
    (fun _ _ hbuilt => hbuilt.1.congr hn.symm hp.symm hr.symm) fun _ _ hf => hf.elim

theorem Restores.refl (t : Tree) : t.Restores t := ⟨Nat.le_refl _, rfl, fun _ => rfl⟩

/-- What was built for a container, with its children. -/
theorem Built.populated {t₂ : Tree} {isContainer : Bool}
    (h : t.Built spec isContainer pending id t')
    (he : t'.element? id = some e) (hp : t'.Populated id e (pending ∪ t.pendingFor spec) t₂) :
    t.Built spec isContainer pending id t₂ := by
  obtain rfl := h.id_eq
  exact
    { id_eq := rfl
      sound := hp.sound
      element := by
        obtain ⟨e', he', hn, hpar, hpath, hc⟩ := h.element
        obtain rfl : e = e' := Option.some.inj (he.symm.trans he')
        obtain ⟨e₂, he₂, hn', hpar', hpath', hc'⟩ := hp.element
        exact ⟨e₂, he₂, hn'.trans hn, hpar'.trans hpar, hpath'.trans hpath, by rw [hc', hc]⟩
      older := fun hx => (hp.older hx).trans (h.older hx)
      rooted := hp.rooted
      size_lt := Nat.lt_of_lt_of_le h.size_lt hp.size_le
      madeKeys := hp.madeKeys.trans h.madeKeys }

mutual

/-- **Building**: a new subtree stands behind everything else; if building fails,
the elements are what they were. -/
theorem ensures_build : ∀ (schema : Schema), schema.Distinct →
    ∀ {t : Tree} {pending : Set ElementId} {spec : ElementSpec}, Sound t pending → t.Fits spec →
      (build schema spec).Ensures t (t.Built spec schema.isContainer pending)
        fun _ t' => Sound t' pending ∧ t.Restores t'
  | .leaf type default, _, t, pending, spec, h, hfit => by
    rw [build, ensures_ofExcept_bind]
    refine ⟨fun _ _ => ?_, fun _ _ => ⟨h, .refl t⟩⟩
    exact ensures_wrap_node h hfit (.of_isInitial rfl fun hl => by cases hl) (by simp)
      (by simp) (by simp)
  | .leafList type default, _, t, pending, spec, h, hfit => by
    rw [build]
    exact ensures_wrap_node h hfit (.of_isInitial rfl fun hl => by cases hl) (by simp)
      (by simp) (by simp)
  | .container children default, hd, t, pending, spec, h, hfit => by
    rw [Schema.distinct_container] at hd
    rw [build]
    have hfit' : t.Fits { withDefault spec default with isContainer := true } :=
      hfit.congr (by simp) (by simp) (by simp)
    have hwrap := ensures_wrap .container h hfit' (.of_isInitial trivial fun hl => by cases hl)
    refine (hwrap.mono (fun _ _ hb => hb) fun _ _ hf => hf.elim).bind fun id t₁ hb => ?_
    obtain ⟨hb, he⟩ := hb
    obtain ⟨e, hc, hchildren, he⟩ : ∃ e, e.content = .container ∧ e.children = [] ∧
        t₁.element? id = some e := ⟨_, rfl, rfl, he⟩
    have hb : t.Built spec true pending id t₁ := hb.congr (by simp) (by simp) (by simp)
    have hp := ensures_populate spec.registers children hd.2 hd.1 hb.sound he hc
      (by simp [hchildren, Assoc.keys]) hb.rooted
    have hstep : (orRemove id (populate id spec.registers children)).Ensures t₁
        (fun _ => t₁.Populated id e (pending ∪ t.pendingFor spec)) fun _ t₂ =>
          Sound t₂ pending ∧ t.Restores t₂ := by
      rw [orRemove, ensures_tryCatch]
      refine hp.mono (fun _ _ hp => hp) fun err t₂ hp => ?_
      exact ((hp.remove h hfit hb he).mono (fun _ _ hr => hr) fun _ _ hf => hf.elim).bind
        fun _ t₃ hr => hr
    exact hstep.bind fun _ t₂ hp => hb.populated he hp
  | .list ⟨key, entry, ordered⟩ default, hd, t, pending, spec, h, hfit => by
    rw [Schema.distinct_list] at hd
    rw [build]
    refine ensures_wrap_node h hfit (.of_isInitial rfl fun hl => ?_) (by simp) (by simp) (by simp)
    obtain rfl := Content.list.inj hl
    exact hd

/-- The children of a container are built one after the other, and all are taken back if one
fails. -/
theorem ensures_populate (registers : Bool) :
    ∀ (children : List (Child Schema)), Schema.AllDistinct children →
    (children.map Child.name).Nodup →
    ∀ {t : Tree} {pending : Set ElementId} {id : ElementId} {e : Element},
      Sound t pending → t.element? id = some e → e.content = .container →
      (∀ c ∈ children, c.name ∉ Assoc.keys e.children) → t.Rooted id →
      (populate id registers children).Ensures t (fun _ => t.Populated id e pending)
        fun _ => t.Populated id e pending
  | [], _, _, t, pending, id, e, h, he, _, _, hr => by
    rw [populate]
    exact .refl h he hr
  | ⟨name, case, node⟩ :: rest, hd, hn, t, pending, id, e, h, he, hc, hnew, hr => by
    rw [Schema.AllDistinct] at hd
    rw [List.map_cons, List.nodup_cons] at hn
    have hname := hnew ⟨name, case, node⟩ List.mem_cons_self
    rw [populate]
    refine Ensures.bind ((ensures_build node hd.1 h (fits_child registers case he hname)).mono
      (fun _ _ hb => hb) fun _ t' hf => hf.2.populated hf.1 he hr) fun child t₁ hb => ?_
    obtain ⟨e₂, he₂, hkeys, hp⟩ := hb.addField case node.isLeaf he hc hname hr
    obtain ⟨e₁, he₁, -⟩ := modifyElement_cases he₂
    rw [ensures_bind, ensures_update_of he₁]
    obtain ⟨e', he', -, -, -, hc₂⟩ := hp.element
    obtain rfl : e₂ = e' := Option.some.inj (he₂.symm.trans he')
    exact (ensures_populate registers rest hd.2 hn.2 hp.sound he₂ (hc₂.trans hc)
      (fresh_rest hn.1 hnew hkeys)
      hp.rooted).mono (fun _ _ hp' => hp.trans he₂ hp') fun _ _ hp' => hp.trans he₂ hp'

end

end Tree

end DataTree
