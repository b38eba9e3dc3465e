import DataTree.Proofs.Outcome
import DataTree.Proofs.Slots
import DataTree.Tree.Assign
import Mathlib.Data.List.Perm.Subperm

/-!
# DataTree.Proofs.Frame

What never changes about an element, and what only ever gets less.

* `Element.bare` is an element without its data, its mark and its links to what
  is below it.  Once an element stands in its tree this stays as it is.
* `Element.frame` adds the links.  Marking, storing a value and editing items
  leave it alone.
* `Shrinks` relates a tree to a later one in which elements and links may be gone
  but none are new.  Everything that assigning, editing and unsetting do goes
  along this relation.
-/

namespace DataTree

open Outcome

/-! ## Contents -/

namespace Content

/-- A content without its data. -/
def bare : Content → Content
  | .leaf slot => .leaf { slot with value := none }
  | .leafList l => .leafList { l with items := [] }
  | .container => .container
  | .list l => .list { l with members := [] }
  | .custom _ => .custom (.fixed .empty)

/-- The entries of a list under their keys. -/
def links : Content → List (String × ElementId)
  | .list l => l.members
  | _ => []

/-- The entries of a list are the elements that its links lead to. -/
theorem entries_eq_links (c : Content) : c.entries = c.links.map Prod.snd := by
  cases c <;> rfl

/-- What looks like a container without its data is one. -/
theorem eq_container_of_bare {c : Content} (h : c.bare = .container) : c = .container := by
  cases c <;> simp_all [bare]

/-- What looks like a list without its data is that list with other entries. -/
theorem eq_list_of_bare {c : Content} {l : KeyedList} (h : c.bare = (Content.list l).bare) :
    c = .list { l with members := c.links } := by
  cases c with
  | list l' =>
    obtain ⟨schema, members⟩ := l
    obtain ⟨schema', members'⟩ := l'
    simp only [bare, list.injEq, KeyedList.mk.injEq, and_true] at h
    rw [h]
    rfl
  | _ => simp [bare] at h

/-- What looks like a leaf without its data is that leaf with another value. -/
theorem exists_leaf_of_bare {c : Content} {slot : LeafSlot}
    (h : c.bare = (Content.leaf slot).bare) :
    ∃ value, c = .leaf { slot with value } := by
  cases c with
  | leaf slot' =>
    obtain ⟨type, value⟩ := slot
    obtain ⟨type', value'⟩ := slot'
    simp only [bare, leaf.injEq, LeafSlot.mk.injEq, and_true] at h
    exact ⟨value', by rw [h]⟩
  | _ => simp [bare] at h

/-- Two contents of the same kind and with the same links. -/
def SameFrame (c c' : Content) : Prop := c'.bare = c.bare ∧ c'.links = c.links

end Content

/-- Editing a leaf-list does not change the type of its items. -/
theorem LeafList.type_of_edit {l l' : LeafList} {op : ItemEdit} {v : Value}
    (h : l.edit op = .ok (v, l')) : l'.type = l.type := by
  cases op with
  | append raw =>
    obtain ⟨w, -, h⟩ := bind_eq_ok.1 h
    obtain ⟨-, rfl⟩ := Prod.mk.inj (pure_eq_ok.1 h)
    rfl
  | insert index raw =>
    obtain ⟨w, -, h⟩ := bind_eq_ok.1 h
    obtain ⟨-, rfl⟩ := Prod.mk.inj (pure_eq_ok.1 h)
    rfl
  | remove raw =>
    simp only [LeafList.edit, LeafList.remove, LeafList.pop] at h
    grind
  | pop index =>
    simp only [LeafList.edit, LeafList.pop] at h
    grind

/-- Adding in bulk does not change the type of the items either. -/
theorem LeafList.type_of_extend {l l' : LeafList} {raws vs : List Value}
    (h : l.extend raws = .ok (vs, l')) : l'.type = l.type := by
  obtain ⟨w, -, h⟩ := bind_eq_ok.1 h
  obtain ⟨-, rfl⟩ := Prod.mk.inj (pure_eq_ok.1 h)
  rfl

/-- Editing items changes data only. -/
theorem Content.sameFrame_of_edit {op : ItemEdit} {c c' : Content} {v : Value}
    (h : c.edit op = .ok (v, c')) : c.SameFrame c' := by
  cases c with
  | leafList l =>
    unfold edit at h
    obtain ⟨⟨w, l'⟩, hl, h⟩ := map_eq_ok.1 h
    obtain ⟨-, rfl⟩ := Prod.mk.inj h
    exact ⟨by simp [bare, LeafList.type_of_edit hl], rfl⟩
  | custom c =>
    unfold edit at h
    obtain ⟨⟨w, c''⟩, -, h⟩ := map_eq_ok.1 h
    obtain ⟨-, rfl⟩ := Prod.mk.inj h
    exact ⟨rfl, rfl⟩
  | _ => simp [edit] at h

/-- Adding in bulk changes nothing but items. -/
theorem Content.sameFrame_of_extend {raws vs : List Value} {c c' : Content}
    (h : c.extend raws = .ok (vs, c')) : c.SameFrame c' := by
  cases c with
  | leafList l =>
    unfold extend at h
    obtain ⟨⟨ws, l'⟩, hl, h⟩ := map_eq_ok.1 h
    obtain ⟨-, rfl⟩ := Prod.mk.inj h
    exact ⟨by simp [bare, LeafList.type_of_extend hl], rfl⟩
  | custom c =>
    unfold extend at h
    obtain ⟨⟨w, c''⟩, -, h⟩ := map_eq_ok.1 h
    obtain ⟨-, rfl⟩ := Prod.mk.inj h
    exact ⟨rfl, rfl⟩
  | _ => simp [extend] at h

/-- Clearing changes nothing but data. -/
theorem Content.sameFrame_of_clear {vs : List Value} {c c' : Content}
    (h : c.clear = .ok (vs, c')) : c.SameFrame c' := by
  cases c with
  | leaf slot =>
    simp only [clear, Except.ok.injEq, Prod.mk.injEq] at h
    obtain ⟨-, rfl⟩ := h
    exact ⟨rfl, rfl⟩
  | leafList l =>
    simp only [clear, LeafList.clear, Except.ok.injEq, Prod.mk.injEq] at h
    obtain ⟨-, rfl⟩ := h
    exact ⟨rfl, rfl⟩
  | custom c =>
    unfold clear at h
    obtain ⟨⟨w, c''⟩, -, h⟩ := map_eq_ok.1 h
    obtain ⟨-, rfl⟩ := Prod.mk.inj h
    exact ⟨rfl, rfl⟩
  | _ => simp [clear] at h

/-! ## Elements -/

namespace Element

/-- An element without data, mark and links. -/
def bare (e : Element) : Element :=
  { e with changed := false, content := e.content.bare, children := [] }

/-- An element without data and mark, and its links. -/
def frame (e : Element) : Element × List (String × ElementId) × List (String × ElementId) :=
  (e.bare, e.children, e.content.links)

/-- The frame of an element consists of its bare form and of what it leads to. -/
theorem frame_eq_iff {e e' : Element} :
    e'.frame = e.frame ↔
      e'.bare = e.bare ∧ e'.children = e.children ∧ e'.content.links = e.content.links := by
  simp [frame]

section

variable {e e' : Element}

theorem id_of_bare (h : e'.bare = e.bare) : e'.id = e.id := (congrArg Element.id h :)

theorem name_of_bare (h : e'.bare = e.bare) : e'.name = e.name := (congrArg Element.name h :)

theorem parent_of_bare (h : e'.bare = e.bare) : e'.parent = e.parent :=
  (congrArg Element.parent h :)

theorem path_of_bare (h : e'.bare = e.bare) : e'.path = e.path := (congrArg Element.path h :)

theorem registers_of_bare (h : e'.bare = e.bare) : e'.registers = e.registers :=
  (congrArg Element.registers h :)

theorem isLeaf_of_bare (h : e'.bare = e.bare) : e'.isLeaf = e.isLeaf :=
  (congrArg Element.isLeaf h :)

theorem setters_of_bare (h : e'.bare = e.bare) : e'.setters = e.setters :=
  (congrArg Element.setters h :)

theorem unsetters_of_bare (h : e'.bare = e.bare) : e'.unsetters = e.unsetters :=
  (congrArg Element.unsetters h :)

theorem choices_of_bare (h : e'.bare = e.bare) : e'.choices = e.choices :=
  (congrArg Element.choices h :)

theorem case_of_bare (h : e'.bare = e.bare) : e'.case = e.case := (congrArg Element.case h :)

theorem content_of_bare (h : e'.bare = e.bare) : e'.content.bare = e.content.bare :=
  (congrArg Element.content h :)

/-- A leaf stays one, and of the same type. -/
theorem exists_leaf_of_bare {slot : LeafSlot} (h : e'.bare = e.bare)
    (hslot : e.content = .leaf slot) : ∃ value, e'.content = .leaf { slot with value } := by
  have hbare := content_of_bare h
  rw [hslot] at hbare
  exact Content.exists_leaf_of_bare hbare

end

/-- Another content of the same frame leaves the frame of the element. -/
theorem frame_of_content {e : Element} {c : Content} (h : e.content.SameFrame c) :
    { e with content := c }.frame = e.frame := by
  simp [frame, bare, h.1, h.2]

/-- The later element has lost data and links at most. -/
structure Shrinks (e e' : Element) : Prop where
  bare : e'.bare = e.bare
  children : e'.children.Sublist e.children
  links : e'.content.links.Subperm e.content.links

theorem Shrinks.refl (e : Element) : e.Shrinks e := ⟨rfl, .refl _, .refl _⟩

theorem Shrinks.trans {e₁ e₂ e₃ : Element} (h : e₁.Shrinks e₂) (h' : e₂.Shrinks e₃) :
    e₁.Shrinks e₃ :=
  ⟨h'.bare.trans h.bare, h'.children.trans h.children, h'.links.trans h.links⟩

/-- Where the frame stays, nothing is lost. -/
theorem shrinks_of_frame {e e' : Element} (h : e'.frame = e.frame) : e.Shrinks e' := by
  obtain ⟨hb, hc, hl⟩ := frame_eq_iff.1 h
  exact ⟨hb, hc ▸ .refl _, hl ▸ .refl _⟩

/-- Taking a child out makes an element less. -/
theorem shrinks_detach (e : Element) (name : String) (id : ElementId) :
    e.Shrinks (e.detach name id) := by
  unfold detach
  split
  · split
    · exact ⟨rfl, List.filter_sublist, .refl _⟩
    · exact .refl e
  · next l h =>
    refine ⟨?_, .refl _, ?_⟩
    · simp [Element.bare, Content.bare, KeyedList.forget, h]
    · simp only [h, Content.links, KeyedList.forget]
      exact List.filter_sublist.subperm
  · exact .refl e

end Element

/-! ## Trees -/

namespace Tree

open Edit

/-- The later tree has lost elements, data and links at most. -/
structure Shrinks (t t' : Tree) : Prop where
  size : t'.slots.size = t.slots.size
  madeKeys : t'.madeKeys = t.madeKeys
  element : ∀ {id e'}, t'.element? id = some e' → ∃ e, t.element? id = some e ∧ e.Shrinks e'

instance : IsPreorder Tree Shrinks where
  refl _ := ⟨rfl, rfl, fun h => ⟨_, h, .refl _⟩⟩
  trans _ _ _ h h' :=
    { size := h'.size.trans h.size
      madeKeys := h'.madeKeys.trans h.madeKeys
      element := fun he => by
        obtain ⟨e₂, he₂, h₂⟩ := h'.element he
        obtain ⟨e₁, he₁, h₁⟩ := h.element he₂
        exact ⟨e₁, he₁, h₁.trans h₂⟩ }

/-- Elements that are gone stay gone. -/
theorem Shrinks.element?_eq_none {t t' : Tree} (h : t.Shrinks t') {id : ElementId}
    (hid : t.element? id = none) : t'.element? id = none := by
  cases he : t'.element? id with
  | none => rfl
  | some e' =>
    obtain ⟨e, he, -⟩ := h.element he
    rw [hid] at he
    cases he

/-- A tree gets less with one of its elements. -/
theorem shrinks_modifyElement {t : Tree} {id : ElementId} {f : Element → Element}
    (h : ∀ e, t.element? id = some e → e.Shrinks (f e)) : t.Shrinks (t.modifyElement id f) := by
  refine ⟨size_slots_modifyElement t id f, rfl, fun {x e'} he => ?_⟩
  obtain ⟨e, hxe, ⟨rfl, rfl⟩ | ⟨-, rfl⟩⟩ := modifyElement_cases he
  · exact ⟨e, hxe, h e hxe⟩
  · exact ⟨e', hxe, .refl e'⟩

/-- A list may lose entries. -/
theorem shrinks_unlink {t : Tree} {id : ElementId} {e : Element} {l : KeyedList}
    {members : List (String × ElementId)} {f : Element → Element} (he : t.element? id = some e)
    (hl : e.content = .list l) (hsub : members.Subperm l.members)
    (hf : f e = { e with content := .list { l with members } }) :
    t.Shrinks (t.modifyElement id f) := by
  refine shrinks_modifyElement fun e' he' => ?_
  obtain rfl : e = e' := Option.some.inj (he.symm.trans he')
  rw [hf]
  refine ⟨by simp [Element.bare, Content.bare, hl], .refl _, ?_⟩
  rw [hl]
  exact hsub

/-- The registry, the marks and the events have no part in what a tree consists of. -/
theorem shrinks_of_slots {t t' : Tree} (hs : t'.slots = t.slots) (hm : t'.madeKeys = t.madeKeys) :
    t.Shrinks t' :=
  ⟨by rw [hs], hm, fun he => ⟨_, element?_congr hs _ ▸ he, .refl _⟩⟩

theorem shrinks_detach (t : Tree) (e : Element) : t.Shrinks (t.detach e) := by
  unfold detach
  split
  · exact shrinks_modifyElement fun p _ => p.shrinks_detach e.name e.id
  · exact refl_of Shrinks t

/-- Dropping elements makes a tree less. -/
theorem shrinks_foldl_drop (doomed : List ElementId) (t : Tree) :
    t.Shrinks (doomed.foldl drop t) := by
  obtain ⟨he, hs, hm, -⟩ := foldl_drop doomed t
  refine ⟨hs, hm, fun {x e'} hx => ⟨e', ?_, .refl e'⟩⟩
  rw [he x] at hx
  split at hx
  · cases hx
  · exact hx

/-! ## Data and marks -/

/-- Two trees whose elements differ in data and marks only. -/
structure SameFrame (t t' : Tree) : Prop where
  size : t'.slots.size = t.slots.size
  live : t'.live = t.live
  madeKeys : t'.madeKeys = t.madeKeys
  element : ∀ id, (t'.element? id).map Element.frame = (t.element? id).map Element.frame

instance : IsPreorder Tree SameFrame where
  refl _ := ⟨rfl, rfl, rfl, fun _ => rfl⟩
  trans _ _ _ h h' :=
    ⟨h'.size.trans h.size, h'.live.trans h.live, h'.madeKeys.trans h.madeKeys,
      fun id => (h'.element id).trans (h.element id)⟩

theorem SameFrame.symm {t t' : Tree} (h : t.SameFrame t') : t'.SameFrame t :=
  ⟨h.size.symm, h.live.symm, h.madeKeys.symm, fun id => (h.element id).symm⟩

/-- What is there now was there before, with the same frame. -/
theorem SameFrame.element? {t t' : Tree} (h : t.SameFrame t') {id : ElementId} {e' : Element}
    (he : t'.element? id = some e') : ∃ e, t.element? id = some e ∧ e'.frame = e.frame := by
  obtain ⟨e, he, hf⟩ := exists_of_map_eq (h.element id).symm he
  exact ⟨e, he, hf.symm⟩

/-- A tree that kept its frame has lost nothing and got nothing. -/
theorem SameFrame.shrinks {t t' : Tree} (h : t.SameFrame t') : t.Shrinks t' where
  size := h.size
  madeKeys := h.madeKeys
  element := fun he => by
    obtain ⟨e, he, hf⟩ := h.element? he
    exact ⟨e, he, Element.shrinks_of_frame hf⟩

/-- The frame of a tree stays where that of the changed element does. -/
theorem sameFrame_modifyElement {t : Tree} {id : ElementId} {f : Element → Element}
    (h : ∀ e, t.element? id = some e → (f e).frame = e.frame) :
    t.SameFrame (t.modifyElement id f) :=
  ⟨size_slots_modifyElement t id f, rfl, rfl, fun _ => map_element?_modifyElement fun _ => h⟩

/-- The registry and the events are no part of the frame. -/
theorem sameFrame_of_slots {t t' : Tree} (hs : t'.slots = t.slots) (hl : t'.live = t.live)
    (hm : t'.madeKeys = t.madeKeys) : t.SameFrame t' :=
  ⟨by rw [hs], hl, hm, fun id => by rw [element?_congr hs]⟩

theorem sameFrame_tell (t : Tree) (event : Event) : t.SameFrame (t.tell event) :=
  sameFrame_of_slots rfl rfl rfl

theorem sameFrame_register (t : Tree) (e : Element) (path : String) (x : Target) :
    t.SameFrame (t.register e path x) := sameFrame_of_slots (by simp) (by simp) (by simp)

theorem sameFrame_unregister (t : Tree) (e : Element) (path : String) (x : Target) :
    t.SameFrame (t.unregister e path x) := sameFrame_of_slots (by simp) (by simp) (by simp)

/-- A change of an element that keeps its frame keeps that of the tree. -/
theorem sameFrame_update {id : ElementId} {f : Element → Element} (h : ∀ e, (f e).frame = e.frame) :
    Leads SameFrame (update id f) :=
  leads_update fun _ _ _ => sameFrame_modifyElement fun e _ => h e

/-- Marking elements changes no frame. -/
theorem sameFrame_markChanged (ids : List ElementId) : Leads SameFrame (markChanged ids) :=
  leads_forM fun _ _ => sameFrame_update fun _ => rfl

/-- The same elements are there. -/
theorem SameFrame.isSome {t t' : Tree} (h : t.SameFrame t') (id : ElementId) :
    (t'.element? id).isSome = (t.element? id).isSome := by
  rw [← Option.isSome_map (f := Element.frame), h.element id, Option.isSome_map]

/-- Marking what is there cannot fail. -/
theorem ensures_markChanged {ids : List ElementId} {t : Tree}
    (h : ∀ x ∈ ids, (t.element? x).isSome) :
    (markChanged ids).Ensures t (fun _ _ => True) fun _ _ => False := by
  induction ids generalizing t with
  | nil => exact trivial
  | cons id ids ih =>
    show (update id _ >>= fun _ => markChanged ids).Ensures t _ _
    rw [ensures_bind, ensures_update]
    refine ⟨fun e he => ih fun x hx => ?_, fun hnone => ?_⟩
    · rw [isSome_element?_modifyElement]
      exact h x (List.mem_cons_of_mem id hx)
    · have hid := h id List.mem_cons_self
      rw [hnone] at hid
      cases hid

/-- Putting another content of the same frame into an element that was just looked at. -/
theorem sameFrame_update_content {t : Tree} {id : ElementId} {e : Element} {c : Content}
    (he : t.element? id = some e) (hc : e.content.SameFrame c) :
    t.SameFrame ((update id fun e => { e with content := c }).on t).2 := by
  rw [on_update, element, he]
  refine sameFrame_modifyElement fun e' he' => ?_
  obtain rfl : e = e' := Option.some.inj (he.symm.trans he')
  exact Element.frame_of_content hc

/-! ## Edits that only take away -/

/-- Removing a subtree only takes something away. -/
theorem shrinks_removeSubtree (id : ElementId) : Leads Shrinks (removeSubtree id) := by
  unfold removeSubtree get
  refine (leads_reading _).bind fun doomed => (leads_reading _).bind fun e => ?_
  exact leads_changing fun t => trans_of Shrinks (t.shrinks_detach e) (shrinks_foldl_drop doomed _)

/-- Clearing only takes something away. -/
theorem shrinks_clear (id : ElementId) : Leads Shrinks (clear id) := by
  unfold clear get
  refine leads_reading_bind fun t e he => ?_
  rw [element_eq_ok_iff] at he
  split
  · next l hl =>
    refine rel_bind ?_ fun _ t' _ => leads_forM (fun entry _ => shrinks_removeSubtree entry) t'
    rw [on_update, element, he]
    exact shrinks_unlink he hl List.nil_subperm rfl
  · refine rel_bind (leads_ofExcept _ t) fun p t' hp => ?_
    rw [on_ofExcept, Prod.mk.injEq] at hp
    obtain ⟨hp, rfl⟩ := hp
    refine rel_bind ?_ fun _ t' _ => leads_changing (fun t'' => ?_) t'
    · exact (sameFrame_update_content he (Content.sameFrame_of_clear hp)).shrinks
    · obtain ⟨hs, -, hm⟩ := foldl_unregisterMember e e.content.members t''
      exact shrinks_of_slots hs hm

/-- Unsetting only takes something away. -/
theorem shrinks_unset (id : ElementId) : Leads Shrinks (unset id) :=
  (leads_reading _).bind fun _ => leads_forM fun holder _ => shrinks_clear holder

/-- A hook only takes something away. -/
theorem shrinks_runUnset (hook : Unset) : Leads Shrinks (runUnset hook) := by
  cases hook with
  | contents id => exact shrinks_unset id
  | subtree id => exact shrinks_removeSubtree id

/-- Hooks only take something away. -/
theorem shrinks_runUnsets (hooks : List Unset) : Leads Shrinks (runUnsets hooks) :=
  leads_forM fun hook _ => shrinks_runUnset hook

/-- A change of an element that keeps its frame takes nothing away. -/
theorem shrinks_update {id : ElementId} {f : Element → Element} (h : ∀ e, (f e).frame = e.frame) :
    Leads Shrinks (update id f) := fun t => (sameFrame_update h t).shrinks

/-- Marking elements takes nothing away. -/
theorem shrinks_markChanged (ids : List ElementId) : Leads Shrinks (markChanged ids) :=
  fun t => (sameFrame_markChanged ids t).shrinks

/-- Restoring marks takes nothing away. -/
theorem shrinks_restoreMarks (marks : List (ElementId × Bool)) :
    Leads Shrinks (restoreMarks marks) :=
  leads_forM fun _ _ => shrinks_update fun _ => rfl

/-- Carrying out a plan only takes something away. -/
theorem shrinks_commit (p : Plan) : Leads Shrinks (commit p) :=
  (shrinks_runUnsets p.unsets).bind fun _ => shrinks_markChanged p.marks

theorem frame_store (value : Option LeafValue) (e : Element) : (store value e).frame = e.frame := by
  unfold store
  split
  · next slot h =>
    refine Element.frame_of_content ?_
    rw [h]
    exact ⟨rfl, rfl⟩
  · rfl

/-! ## Holding the same -/

/-- What an element holds. -/
def held (t : Tree) (y : ElementId) : Option Content := (t.element? y).map (·.content)

/-- What is held at a place is the content of the element there. -/
theorem held_eq_some_iff {t : Tree} {y : ElementId} {content : Content} :
    t.held y = some content ↔ ∃ e, t.element? y = some e ∧ e.content = content :=
  Option.map_eq_some_iff

theorem held_congr {t t' : Tree} {y : ElementId} (h : t'.element? y = t.element? y) :
    t'.held y = t.held y := by rw [held, h, held]

/-- What is stored into a leaf it holds, in the type that it has always had. -/
theorem held_store {t : Tree} {x : ElementId} {e e' : Element} {slot : LeafSlot}
    (value : Option LeafValue)
    (he' : t.element? x = some e') (h : e'.bare = e.bare) (hslot : e.content = .leaf slot) :
    (t.modifyElement x (store value)).held x = some (.leaf { slot with value }) := by
  obtain ⟨old, hold⟩ := Element.exists_leaf_of_bare h hslot
  rw [held, element?_modifyElement_self he', Option.map_some, store, hold]

/-- All elements hold what they held. -/
def SameData (t t' : Tree) : Prop := ∀ y, t'.held y = t.held y

instance : IsPreorder Tree SameData where
  refl _ _ := rfl
  trans _ _ _ h h' y := (h' y).trans (h y)

/-- A change of an element outside of its content changes no data. -/
theorem sameData_update {id : ElementId} {f : Element → Element}
    (h : ∀ e, (f e).content = e.content) : Leads SameData (update id f) := by
  refine leads_update fun t e _ y => ?_
  rw [held, held, element?_modifyElement]
  split
  · rw [Option.map_map]
    exact congrArg (Option.map · _) (funext h)
  · rfl

/-- Marks are nothing that an element holds. -/
theorem sameData_markChanged (ids : List ElementId) : Leads SameData (markChanged ids) :=
  leads_forM fun _ _ => sameData_update fun _ => rfl

/-- Restoring marks changes no data. -/
theorem sameData_restoreMarks (marks : List (ElementId × Bool)) :
    Leads SameData (restoreMarks marks) :=
  leads_forM fun _ _ => sameData_update fun _ => rfl

end Tree

end DataTree
