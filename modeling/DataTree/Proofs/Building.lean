import DataTree.Proofs.Slots
import DataTree.Proofs.Tables
import DataTree.Tree.Build

/-!
# DataTree.Proofs.Building

What making an element does to a tree, and invariants of building.

An element that is made stands in the slot behind all others (`Tree.place`), and if
its parent is a container then that has it as a child (`Tree.link`).

Building a subtree makes single elements, enters them into
the hooks and choices of their container, and removes what it made if something
fails.  Whatever these three steps move along, building moves along.
-/

namespace DataTree

open Edit

/-! ## Contents and cases of new elements -/

/-- A content as an element starts with it. -/
def Content.IsInitial : Content → Prop
  | .leaf slot => slot.value = none
  | .leafList l => l.items = []
  | .container => True
  | .list l => l.members = []
  | .custom _ => False

mutual

/-- Every case that a schema mentions is a good one, and so is every list. -/
def Schema.Uses (goodCase : Option Case → Prop) (goodList : ListSchema Schema → Prop) :
    Schema → Prop
  | .leaf _ _ | .leafList _ _ => True
  | .container children _ => Schema.AllUse goodCase goodList children
  | .list entries _ => goodList entries

/-- The same for the children of a container. -/
def Schema.AllUse (goodCase : Option Case → Prop) (goodList : ListSchema Schema → Prop) :
    List (Child Schema) → Prop
  | [] => True
  | ⟨_, case, node⟩ :: rest =>
    goodCase case ∧ Schema.Uses goodCase goodList node ∧ Schema.AllUse goodCase goodList rest

end

mutual

/-- What holds of every case and every list holds of those in a schema. -/
theorem Schema.uses_of_forall {goodCase : Option Case → Prop} {goodList : ListSchema Schema → Prop}
    (hc : ∀ c, goodCase c) (hl : ∀ l, goodList l) : ∀ schema : Schema, schema.Uses goodCase goodList
  | .leaf _ _ => by rw [Schema.Uses]; exact trivial
  | .leafList _ _ => by rw [Schema.Uses]; exact trivial
  | .container children _ => by
    rw [Schema.Uses]
    exact Schema.allUse_of_forall hc hl children
  | .list entries _ => by
    rw [Schema.Uses]
    exact hl entries

theorem Schema.allUse_of_forall {goodCase : Option Case → Prop}
    {goodList : ListSchema Schema → Prop} (hc : ∀ c, goodCase c) (hl : ∀ l, goodList l) :
    ∀ children : List (Child Schema), Schema.AllUse goodCase goodList children
  | [] => by rw [Schema.AllUse]; exact trivial
  | ⟨_, case, node⟩ :: rest => by
    rw [Schema.AllUse]
    exact ⟨hc case, Schema.uses_of_forall hc hl node, Schema.allUse_of_forall hc hl rest⟩

end

/-- Whether an event tells of the registry. -/
def Event.isTraffic : Event → Bool
  | registered _ _ | unregistered _ _ => true
  | _ => false

/-- A container with a new child; nothing else gets children. -/
def Element.gain (e : Element) (name : String) (id : ElementId) : Element :=
  if e.content.isContainer then { e with children := Assoc.insert name id e.children } else e

namespace Element

variable {e e' : Element}

/-! ## Gaining a child -/

/-- An element without its children. -/
def trunk (e : Element) : Element := { e with children := [] }

theorem id_of_trunk (h : e'.trunk = e.trunk) : e'.id = e.id := (congrArg Element.id h :)

theorem name_of_trunk (h : e'.trunk = e.trunk) : e'.name = e.name := (congrArg Element.name h :)

theorem parent_of_trunk (h : e'.trunk = e.trunk) : e'.parent = e.parent := (congrArg parent h :)

theorem path_of_trunk (h : e'.trunk = e.trunk) : e'.path = e.path := (congrArg path h :)

theorem case_of_trunk (h : e'.trunk = e.trunk) : e'.case = e.case := (congrArg case h :)

theorem content_of_trunk (h : e'.trunk = e.trunk) : e'.content = e.content := (congrArg content h :)

theorem changed_of_trunk (h : e'.trunk = e.trunk) : e'.changed = e.changed := (congrArg changed h :)

theorem choices_of_trunk (h : e'.trunk = e.trunk) : e'.choices = e.choices := (congrArg choices h :)

theorem setters_of_trunk (h : e'.trunk = e.trunk) : e'.setters = e.setters := (congrArg setters h :)

theorem unsetters_of_trunk (h : e'.trunk = e.trunk) : e'.unsetters = e.unsetters :=
  (congrArg unsetters h :)

@[simp] theorem trunk_gain (e : Element) (name : String) (id : ElementId) :
    (e.gain name id).trunk = e.trunk := by
  unfold gain
  split <;> rfl

/-! ## Entering a field -/

/-- An element without its hooks and choices. -/
def core (e : Element) : Element :=
  { e with setters := [], unsetters := [], choices := {} }

theorem id_of_core (h : e'.core = e.core) : e'.id = e.id := (congrArg Element.id h :)

theorem parent_of_core (h : e'.core = e.core) : e'.parent = e.parent := (congrArg parent h :)

theorem name_of_core (h : e'.core = e.core) : e'.name = e.name := (congrArg Element.name h :)

theorem path_of_core (h : e'.core = e.core) : e'.path = e.path := (congrArg path h :)

theorem case_of_core (h : e'.core = e.core) : e'.case = e.case := (congrArg case h :)

theorem isLeaf_of_core (h : e'.core = e.core) : e'.isLeaf = e.isLeaf :=
  (congrArg Element.isLeaf h :)

theorem content_of_core (h : e'.core = e.core) : e'.content = e.content := (congrArg content h :)

theorem children_of_core (h : e'.core = e.core) : e'.children = e.children :=
  (congrArg children h :)

theorem below_of_core (h : e'.core = e.core) : e'.below = e.below := (congrArg below h :)

end Element

namespace Tree

variable {t : Tree} {id x : ElementId} {e e' : Element}

/-- A new field changes neither the content nor the children of its element. -/
theorem core_addField (name : String) (case : Option Case) (isLeaf : Bool) (child : ElementId)
    (e : Element) : (addField name case isLeaf child e).core = e.core := rfl

section

variable {name : String} {case : Option Case} {isLeaf : Bool} {child : ElementId}

/-- The setters with a new field are the old ones and the new child. -/
theorem mem_setters_addField {m : String × ElementId}
    (h : m ∈ (addField name case isLeaf child e).setters) : m = (name, child) ∨ m ∈ e.setters := by
  cases isLeaf with
  | false => exact .inr h
  | true => exact Assoc.mem_of_mem_insert h

/-- The hooks with a new field are the old ones and the clearing of the new child. -/
theorem mem_unsetters_addField {m : String × Unset}
    (h : m ∈ (addField name case isLeaf child e).unsetters) :
    m = (name, .contents child) ∨ m ∈ e.unsetters := Assoc.mem_of_mem_insert h

/-- Where a field was entered everything but hooks and choices is as it was. -/
theorem addField_cases
    (h : (t.modifyElement id (addField name case isLeaf child)).element? x = some e') :
    ∃ e, t.element? x = some e ∧ e'.core = e.core ∧
      ((x = id ∧ e' = addField name case isLeaf child e) ∨ (x ≠ id ∧ e' = e)) := by
  obtain ⟨e, he, ⟨hx, rfl⟩ | ⟨hx, rfl⟩⟩ := modifyElement_cases h
  · exact ⟨e, he, core_addField .., .inl ⟨hx, rfl⟩⟩
  · exact ⟨e', he, rfl, .inr ⟨hx, rfl⟩⟩

/-- Every element is still there when one gets a field, with its core as it was. -/
theorem exists_addField (h : t.element? x = some e) (id : ElementId) (name : String)
    (case : Option Case) (isLeaf : Bool) (child : ElementId) :
    ∃ e', (t.modifyElement id (addField name case isLeaf child)).element? x = some e' ∧
      e'.core = e.core :=
  exists_of_map_eq (map_element?_modifyElement fun _ _ _ => core_addField ..) h

end

/-- The names of the children that are still to be built are still new. -/
theorem fresh_rest {name : String} {case : Option Case} {node : Schema} {rest : List (Child Schema)}
    {old new : List String} (hn : name ∉ rest.map Child.name)
    (hnew : ∀ c ∈ ⟨name, case, node⟩ :: rest, c.name ∉ old) (hkeys : new = old ++ [name]) :
    ∀ c ∈ rest, c.name ∉ new := by
  intro c hm
  rw [hkeys, List.mem_append, not_or, List.mem_singleton]
  exact ⟨hnew c (List.mem_cons_of_mem _ hm), fun hcn => hn (List.mem_map.2 ⟨c, hm, hcn⟩)⟩

/-! ## What making an element does -/

/-- The path of the parent of a new element. -/
def parentPath (t : Tree) (spec : ElementSpec) : Option String :=
  spec.parent.bind fun p => (t.element? p).map Element.path

/-- The element that a description stands for. -/
def newElement (t : Tree) (content : Content) (spec : ElementSpec) : Element :=
  Element.ofSpec ⟨t.slots.size⟩ content spec (pathFor spec (t.parentPath spec))

/-- Put an element into a new slot and register it. -/
def place (t : Tree) (e : Element) : Tree :=
  let t := t.register e e.path (.element e.id)
  { t with slots := t.slots.push (some e), live := t.live + 1 }

/-- Let the parent of a new element know about it. -/
def link (t : Tree) (spec : ElementSpec) : Tree :=
  match spec.parent with
  | some p => t.modifyElement p (·.gain spec.name ⟨t.slots.size⟩)
  | none => t

/-- A parent that is asked for is there. -/
def HasParent (t : Tree) (spec : ElementSpec) : Prop :=
  ∀ p, spec.parent = some p → ∃ pe, t.element? p = some pe

/-- Making an element puts it behind all others and links it to its parent. -/
theorem on_wrap (content : Content) {spec : ElementSpec} (h : t.HasParent spec) :
    (wrap content spec).on t
      = (.ok ⟨t.slots.size⟩, (t.link spec).place (t.newElement content spec)) := by
  unfold wrap newElement link parentPath
  cases hp : spec.parent with
  | none => rfl
  | some p =>
    obtain ⟨pe, hpe⟩ := h p hp
    have hel : t.element p = .ok pe := element_eq_ok_iff.2 hpe
    simp only [on_bind, on_get, hel, on_pure, on_reading, on_update, Option.bind_some, hpe,
      Option.map_some]
    rfl

/-- Without its parent nothing is made. -/
theorem on_wrap_of_none (content : Content) {spec : ElementSpec} {p : ElementId}
    (hp : spec.parent = some p) (h : t.element? p = none) :
    (wrap content spec).on t = (.error (.elementNotFound p), t) := by
  have hel : t.element p = .error (.elementNotFound p) := element_eq_error_iff.2 ⟨h, rfl⟩
  simp only [wrap, hp, on_bind, on_get, hel]

@[simp] theorem slots_place (t : Tree) (e : Element) :
    (t.place e).slots = t.slots.push (some e) := by simp [place]

@[simp] theorem live_place (t : Tree) (e : Element) : (t.place e).live = t.live + 1 := by
  simp [place]

@[simp] theorem madeKeys_place (t : Tree) (e : Element) : (t.place e).madeKeys = t.madeKeys := by
  simp [place]

@[simp] theorem registry_place (t : Tree) (e : Element) :
    (t.place e).registry = (t.register e e.path (.element e.id)).registry := rfl

/-- A new element stands behind all others. -/
theorem element?_place (t : Tree) (e : Element) (x : ElementId) :
    (t.place e).element? x = if x = ⟨t.slots.size⟩ then some e else t.element? x :=
  element?_push t e x (by simp)

@[simp] theorem size_slots_link (t : Tree) (spec : ElementSpec) :
    (t.link spec).slots.size = t.slots.size := by
  unfold link; split <;> simp

@[simp] theorem live_link (t : Tree) (spec : ElementSpec) : (t.link spec).live = t.live := by
  unfold link; split <;> rfl

@[simp] theorem madeKeys_link (t : Tree) (spec : ElementSpec) :
    (t.link spec).madeKeys = t.madeKeys := by
  unfold link; split <;> rfl

@[simp] theorem registry_link (t : Tree) (spec : ElementSpec) :
    (t.link spec).registry = t.registry := by
  unfold link; split <;> rfl

/-- Linking a new element changes its parent alone. -/
theorem element?_link (t : Tree) (spec : ElementSpec) (x : ElementId) :
    (t.link spec).element? x =
      if spec.parent = some x then (t.element? x).map (·.gain spec.name ⟨t.slots.size⟩)
      else t.element? x := by
  unfold link
  cases hp : spec.parent with
  | none => simp
  | some p =>
    simp only [element?_modifyElement, Option.some.injEq]
    by_cases hx : x = p
    · simp [hx]
    · simp [hx, Ne.symm hx]

/-- An old element may be changed before a new one is placed, or after. -/
theorem place_modifyElement {f : Element → Element} (h : id.index < t.slots.size) (e : Element) :
    (t.modifyElement id f).place e = (t.place e).modifyElement id f := by
  have hslots : (t.slots.modify id.index (Option.map f)).push (some e)
      = (t.slots.push (some e)).modify id.index (Option.map f) := by
    refine Array.ext_getElem? fun i => ?_
    simp only [Array.getElem?_modify, Array.getElem?_push, Array.size_modify]
    by_cases hi : id.index = i
    · subst hi
      simp [Nat.ne_of_lt h]
    · simp [hi]
  unfold place register modifyElement
  split <;> simp only [hslots, tell]

/-- So a new element may be linked after it is placed. -/
theorem place_link {spec : ElementSpec} {p : ElementId} {pe : Element} (hp : spec.parent = some p)
    (hpe : t.element? p = some pe) (e : Element) :
    (t.link spec).place e = (t.place e).modifyElement p (·.gain spec.name ⟨t.slots.size⟩) := by
  rw [link, hp]
  exact place_modifyElement (index_lt_of_element? hpe) e

/-- What stands in a tree is the element that was placed last or stood there before. -/
theorem place_cases {xe : Element} (h : (t.place e).element? x = some xe) :
    (x = ⟨t.slots.size⟩ ∧ e = xe) ∨ t.element? x = some xe := by
  rw [element?_place] at h
  split at h
  · next hx => exact .inl ⟨hx, Option.some.inj h⟩
  · exact .inr h

/-- The tree after an element was made. -/
def made (t : Tree) (content : Content) (spec : ElementSpec) : Tree :=
  (t.link spec).place (t.newElement content spec)

section

variable {content : Content} {spec : ElementSpec}

/-- The element that was made. -/
theorem element?_made_self :
    (t.made content spec).element? ⟨t.slots.size⟩ = some (t.newElement content spec) := by
  rw [made, element?_place, size_slots_link, if_pos rfl]

/-- What stands in the tree then is new, or an old element that has the new one as a child, or that
is as it was. -/
theorem made_cases (h : (t.made content spec).element? x = some e') :
    (x = ⟨t.slots.size⟩ ∧ e' = t.newElement content spec) ∨
      ∃ e, t.element? x = some e ∧ e'.trunk = e.trunk ∧ (e'.children = e.children ∨
        spec.parent = some x ∧ e.content = .container ∧
          e'.children = Assoc.insert spec.name ⟨t.slots.size⟩ e.children) := by
  obtain ⟨hx, rfl⟩ | h := place_cases h
  · exact .inl ⟨by rw [hx, size_slots_link], rfl⟩
  rw [element?_link] at h
  split at h
  · next hx =>
    obtain ⟨e, he, rfl⟩ := Option.map_eq_some_iff.1 h
    refine .inr ⟨e, he, e.trunk_gain .., ?_⟩
    unfold Element.gain
    split
    · next hcont => exact .inr ⟨hx, Content.isContainer_iff.1 hcont, rfl⟩
    · exact .inl rfl
  · exact .inr ⟨e', h, rfl, .inl rfl⟩

/-- The old elements are still there. -/
theorem exists_made (content : Content) (spec : ElementSpec) (he : t.element? x = some e) :
    ∃ e', (t.made content spec).element? x = some e' ∧ e'.trunk = e.trunk := by
  have hx : x ≠ ⟨t.slots.size⟩ := by
    rintro rfl
    exact Nat.lt_irrefl _ (index_lt_of_element? he)
  rw [made, element?_place, size_slots_link, if_neg hx, element?_link, he]
  split
  · exact ⟨_, rfl, e.trunk_gain ..⟩
  · exact ⟨e, rfl, rfl⟩

end

section

variable {spec : ElementSpec}

/-- A container has a new child behind all others. -/
theorem element?_link_container (hp : spec.parent = some id) (he : t.element? id = some e)
    (hc : e.content = .container) (hn : spec.name ∉ Assoc.keys e.children) :
    (t.link spec).element? id =
      some { e with children := e.children ++ [(spec.name, ⟨t.slots.size⟩)] } := by
  rw [element?_link, if_pos hp, he, Option.map_some, Element.gain,
    if_pos (Content.isContainer_iff.2 hc), Assoc.insert_eq_append hn]

/-- No element but the parent is changed by linking. -/
theorem element?_link_of_ne (hp : spec.parent = some id) (hx : x ≠ id) :
    (t.link spec).element? x = t.element? x := by
  rw [element?_link, if_neg fun hpx => hx (Option.some.inj (hpx.symm.trans hp))]

end

/-- Making an element, by cases: it is placed, or its parent is not there. -/
theorem ensures_wrap_of {content : Content} {spec : ElementSpec} {done : ElementId → Tree → Prop}
    {failed : Error → Tree → Prop}
    (make : t.HasParent spec → done ⟨t.slots.size⟩
      ((t.link spec).place (t.newElement content spec)))
    (stop : ∀ p, t.element? p = none → failed (.elementNotFound p) t) :
    (wrap content spec).Ensures t done failed := by
  by_cases hparent : t.HasParent spec
  · rw [ensures_of_ok (on_wrap content hparent)]
    exact make hparent
  · obtain ⟨p, hp, hnone⟩ : ∃ p, spec.parent = some p ∧ t.element? p = none := by
      by_contra hno
      exact hparent fun p hp => Option.ne_none_iff_exists'.1 fun hnone => hno ⟨p, hp, hnone⟩
    rw [ensures_of_error (on_wrap_of_none content hp hnone)]
    exact stop p hnone

/-- Making an element moves along a relation if placing it where it fits does. -/
theorem leads_wrap {R : Tree → Tree → Prop} [IsPreorder Tree R] {content : Content}
    {spec : ElementSpec} (h : ∀ t : Tree, t.HasParent spec →
      R t ((t.link spec).place (t.newElement content spec))) : Leads R (wrap content spec) :=
  fun t => rel_of_ensures (ensures_wrap_of (h t) fun _ _ => refl_of R t)

/-! ## Building -/

/-- What makes a relation one that building moves along.  The elements of a subtree
are all registered, or none of them is. -/
structure BuildStable (R : Tree → Tree → Prop) (registers : Bool)
    (goodCase : Option Case → Prop) (goodList : ListSchema Schema → Prop) : Prop where
  wrap : ∀ content spec, content.IsInitial → (∀ l, content = .list l → goodList l.schema) →
    spec.registers = registers → Leads R (wrap content spec)
  field : ∀ {id name case isLeaf child}, goodCase case →
    Leads R (update id (addField name case isLeaf child))
  remove : ∀ id, Leads R (removeSubtree id)

theorem registers_withDefault (spec : ElementSpec) (default : Value) :
    (withDefault spec default).registers = spec.registers := by
  unfold withDefault; split <;> rfl

namespace BuildStable

variable {R : Tree → Tree → Prop} [IsPreorder Tree R] {registers : Bool}
  {goodCase : Option Case → Prop} {goodList : ListSchema Schema → Prop}

mutual

/-- Building keeps what making an element and adding a field keep: the case of one schema. -/
theorem build (h : BuildStable R registers goodCase goodList) :
    ∀ (schema : Schema) (spec : ElementSpec), schema.Uses goodCase goodList →
      spec.registers = registers → Leads R (build schema spec)
  | .leaf type default, spec, _, hr => by
    rw [Tree.build]
    refine (leads_ofExcept _).bind fun _ => h.wrap _ _ rfl (fun l hl => by cases hl) ?_
    rw [registers_withDefault, hr]
  | .leafList type default, spec, _, hr => by
    rw [Tree.build]
    refine h.wrap _ _ rfl (fun l hl => by cases hl) ?_
    rw [registers_withDefault, hr]
  | .container children default, spec, hu, hr => by
    rw [Schema.Uses] at hu
    rw [Tree.build]
    have hwrap := h.wrap .container { withDefault spec default with isContainer := true } trivial
      (fun l hl => by cases hl) ((registers_withDefault spec default).trans hr)
    refine hwrap.bind fun id => Leads.bind ?_ fun _ => leads_pure id
    rw [hr]
    exact (h.populate id children hu).tryCatch fun err =>
      (h.remove id).bind fun _ => leads_throw err
  | .list entries default, spec, hu, hr => by
    rw [Schema.Uses] at hu
    rw [Tree.build]
    refine h.wrap _ _ rfl (fun l hl => ?_) ?_
    · obtain rfl := Content.list.inj hl
      exact hu
    · rw [registers_withDefault, hr]

/-- The same for the children of a container, one after the other. -/
theorem populate (h : BuildStable R registers goodCase goodList) :
    ∀ (id : ElementId) (children : List (Child Schema)),
      Schema.AllUse goodCase goodList children → Leads R (populate id registers children)
  | _, [], _ => by
    rw [Tree.populate]
    exact leads_pure ()
  | id, ⟨name, case, node⟩ :: rest, hu => by
    rw [Schema.AllUse] at hu
    rw [Tree.populate]
    exact (h.build node _ hu.2.1 rfl).bind fun _ => (h.field hu.1).bind fun _ =>
      h.populate id rest hu.2.2

end

end BuildStable

/-- Instantiating tells before and after it builds; what it tells itself is not of the registry. -/
theorem leads_instantiate_of_notes {I : Tree → Prop}
    (htell : ∀ {t} event, event.isTraffic = false → I t → I (t.tell event))
    {schema : Schema} {spec : ElementSpec} (hbuild : Leads (Keeping I) (build schema spec)) :
    Leads (Keeping I) (instantiate schema spec) := by
  unfold instantiate get
  refine (leads_changing fun t => htell _ rfl).bind fun _ => hbuild.bind fun id => ?_
  exact (leads_reading _).bind fun built => (leads_reading _).bind fun e =>
    (leads_changing fun t => htell _ rfl).bind fun _ => leads_pure id

/-- What building keeps is kept by instantiating, which besides sends events only. -/
theorem leads_instantiate {I : Tree → Prop} (htell : ∀ {t} event, I t → I (t.tell event))
    {schema : Schema} {spec : ElementSpec} (hbuild : Leads (Keeping I) (build schema spec)) :
    Leads (Keeping I) (instantiate schema spec) :=
  leads_instantiate_of_notes (fun event _ => htell event) hbuild

end Tree

end DataTree
