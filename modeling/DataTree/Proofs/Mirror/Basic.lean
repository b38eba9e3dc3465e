import DataTree.Proofs.Assignment
import DataTree.Proofs.Mirror.Counting

/-!
# DataTree.Proofs.Mirror.Basic

The registrations that a tree calls for, and trees whose registry has just these.

Every element calls for one registration at its own path, and for one at the path of
an item for each item of a leaf-list.  `Mirrored` says that the registry agrees.  It
also says what keeps it so: every element is registered under the id of its slot,
and no choices are declared, so that no assignment unsets anything behind the back
of an operation on items.
-/

namespace DataTree

open Edit Outcome

mutual

/-- A schema without choices. -/
def Schema.ChoiceFree : Schema → Prop
  | .leaf _ _ | .leafList _ _ => True
  | .container children _ => Schema.AllChoiceFree children
  | .list ⟨_, entry, _⟩ _ => Schema.AllChoiceFree entry

/-- The same for the children of a container or of an entry. -/
def Schema.AllChoiceFree : List (Child Schema) → Prop
  | [] => True
  | ⟨_, case, node⟩ :: rest =>
    case = none ∧ Schema.ChoiceFree node ∧ Schema.AllChoiceFree rest

end

/-- A content whose items are proper, and, if it is a list, without choices in its
entries. -/
def Content.Plain : Content → Prop
  | .leaf _ | .container => True
  | .leafList l => ∀ v ∈ l.items, v.Proper
  | .list l => Schema.AllChoiceFree l.schema.entry
  | .custom _ => False

namespace Element

/-- The registration of an item. -/
def itemRegistration (e : Element) (v : Value) : Registration := (e.memberPath v, .member e.id v)

/-- What an element is registered for. -/
def registrations (e : Element) : List Registration :=
  (e.path, .element e.id) :: e.content.members.map e.itemRegistration

/-- The later element calls for the same registrations. -/
structure Quiet (e e' : Element) : Prop where
  id : e'.id = e.id
  path : e'.path = e.path
  registers : e'.registers = e.registers
  choices : e'.choices = e.choices
  members : e'.content.members = e.content.members
  plain : e.content.Plain → e'.content.Plain

theorem Quiet.refl (e : Element) : e.Quiet e := ⟨rfl, rfl, rfl, rfl, rfl, fun h => h⟩

theorem Quiet.trans {e₁ e₂ e₃ : Element} (h : e₁.Quiet e₂) (h' : e₂.Quiet e₃) : e₁.Quiet e₃ :=
  ⟨h'.id.trans h.id, h'.path.trans h.path, h'.registers.trans h.registers,
    h'.choices.trans h.choices, h'.members.trans h.members, fun hp => h'.plain (h.plain hp)⟩

theorem Quiet.registrations {e e' : Element} (h : e.Quiet e') :
    e'.registrations = e.registrations := by
  have hitem : e'.itemRegistration = e.itemRegistration := by
    funext v
    simp [itemRegistration, memberPath, h.id, h.path]
  rw [Element.registrations, Element.registrations, h.id, h.path, h.members, hitem]

end Element

namespace Tree

/-- What the elements of a tree call for. -/
def registrations (t : Tree) : List Registration :=
  t.ids.flatMap fun id => ((t.element? id).map Element.registrations).getD []

variable {t t' : Tree} {id : ElementId} {e : Element}

/-- What a tree calls for is what one of its elements does. -/
theorem mem_registrations {r : Registration} :
    r ∈ t.registrations ↔ ∃ id e, t.element? id = some e ∧ r ∈ e.registrations := by
  rw [registrations, List.mem_flatMap]
  constructor
  · intro h
    obtain ⟨id, hid, hr⟩ := h
    obtain ⟨e, he⟩ := mem_ids_iff.1 hid
    rw [he] at hr
    exact ⟨id, e, he, hr⟩
  · intro h
    obtain ⟨id, e, he, hr⟩ := h
    exact ⟨id, mem_ids_iff.2 ⟨e, he⟩, by rw [he]; exact hr⟩

/-- Trees whose elements call for the same call for the same. -/
theorem registrations_congr (h : ∀ x, (t'.element? x).map Element.registrations
    = (t.element? x).map Element.registrations) : t'.registrations.Perm t.registrations := by
  have hids : t'.ids.Perm t.ids := by
    rw [List.perm_ext_iff_of_nodup t'.nodup_ids t.nodup_ids]
    intro x
    rw [mem_ids_iff, mem_ids_iff, ← Option.isSome_iff_exists, ← Option.isSome_iff_exists,
      ← Option.isSome_map (f := Element.registrations), h x, Option.isSome_map]
  have hfun : (fun id => ((t'.element? id).map Element.registrations).getD [])
      = fun id => ((t.element? id).map Element.registrations).getD [] := by
    funext x
    rw [h x]
  rw [registrations, registrations, hfun]
  exact hids.flatMap_right _

/-- An element's registrations are among those of its tree; the others are those of the
tree without it. -/
theorem registrations_of_removed (he : t.element? id = some e)
    (h : ∀ x, t'.element? x = if x = id then none else t.element? x) :
    t.registrations.Perm (e.registrations ++ t'.registrations) := by
  have hids : t.ids.Perm (id :: t'.ids) := by
    have hnot : id ∉ t'.ids := by
      intro hm
      obtain ⟨e', he'⟩ := mem_ids_iff.1 hm
      rw [h id, if_pos rfl] at he'
      cases he'
    rw [List.perm_ext_iff_of_nodup t.nodup_ids (List.nodup_cons.2 ⟨hnot, t'.nodup_ids⟩)]
    intro x
    rw [List.mem_cons, mem_ids_iff, mem_ids_iff, h x]
    by_cases hx : x = id
    · simp [hx, he]
    · simp [hx]
  have hperm := hids.flatMap_right fun id => ((t.element? id).map Element.registrations).getD []
  have hrest : (t'.ids.flatMap fun id => ((t.element? id).map Element.registrations).getD [])
      = t'.registrations := by
    refine List.flatMap_congr fun x hx => ?_
    obtain ⟨e', he'⟩ := mem_ids_iff.1 hx
    have hne : x ≠ id := by
      intro hxi
      rw [h x, if_pos hxi] at he'
      cases he'
    rw [h x, if_neg hne]
  rw [List.flatMap_cons, hrest, he] at hperm
  exact hperm

/-! ## The invariant -/

/-- What an element of a mirrored tree is like. -/
structure IsPlain (id : ElementId) (e : Element) : Prop where
  id_eq : e.id = id
  registers : e.registers = true
  choices : e.choices = {}
  content : e.content.Plain

/-- The registry has exactly the registrations that the elements call for. -/
structure Mirrored (t : Tree) : Prop where
  lists : t.registry.Lists t.registrations
  plain : ∀ {id e}, t.element? id = some e → IsPlain id e

theorem mirrored_empty : Mirrored {} :=
  ⟨Registry.lists_empty, fun he => (by simp [element?] at he)⟩

/-! ## Steps without registrations -/

/-- The later tree calls for the same registrations and has the same registry. -/
structure Quiet (t t' : Tree) : Prop where
  registry : t'.registry = t.registry
  isSome : ∀ id, (t'.element? id).isSome = (t.element? id).isSome
  element : ∀ {id e'}, t'.element? id = some e' → ∃ e, t.element? id = some e ∧ e.Quiet e'

instance : IsPreorder Tree Quiet where
  refl _ := ⟨rfl, fun _ => rfl, fun h => ⟨_, h, .refl _⟩⟩
  trans _ _ _ h h' :=
    { registry := h'.registry.trans h.registry
      isSome := fun id => (h'.isSome id).trans (h.isSome id)
      element := fun he => by
        obtain ⟨e₂, he₂, h₂⟩ := h'.element he
        obtain ⟨e₁, he₁, h₁⟩ := h.element he₂
        exact ⟨e₁, he₁, h₁.trans h₂⟩ }

theorem Quiet.registrations (h : t.Quiet t') : t'.registrations.Perm t.registrations := by
  refine registrations_congr fun x => ?_
  have hsome := h.isSome x
  cases hx : t'.element? x with
  | none =>
    rw [hx, Option.isSome_none] at hsome
    rw [Option.isSome_eq_false_iff.1 hsome.symm |> Option.isNone_iff_eq_none.1]
  | some e' =>
    obtain ⟨e, he, hq⟩ := h.element hx
    rw [he, Option.map_some, Option.map_some, hq.registrations]

/-- Elements of a quiet tree are plain still. -/
theorem Quiet.plain (h : t.Quiet t') (hp : ∀ {id e}, t.element? id = some e → IsPlain id e)
    {id : ElementId} {e : Element} (he : t'.element? id = some e) : IsPlain id e := by
  obtain ⟨e₁, he₁, hq⟩ := h.element he
  have hpe := hp he₁
  exact ⟨hq.id.trans hpe.id_eq, hq.registers.trans hpe.registers, hq.choices.trans hpe.choices,
    hq.plain hpe.content⟩

/-- The registry stays in step where nothing else is called for. -/
theorem Mirrored.quiet (h : Mirrored t) (hq : t.Quiet t') : Mirrored t' where
  lists := by
    rw [hq.registry]
    exact h.lists.perm hq.registrations.symm
  plain := hq.plain h.plain

/-- A tree is quiet where the changed element is. -/
theorem quiet_modifyElement {f : Element → Element}
    (h : ∀ e, t.element? id = some e → e.Quiet (f e)) : t.Quiet (t.modifyElement id f) := by
  refine ⟨rfl, isSome_element?_modifyElement t id f, fun {x e'} he => ?_⟩
  obtain ⟨e, hxe, ⟨rfl, rfl⟩ | ⟨-, rfl⟩⟩ := modifyElement_cases he
  · exact ⟨e, hxe, h e hxe⟩
  · exact ⟨e', hxe, .refl e'⟩

/-- The same for an edit that changes an element. -/
theorem quiet_update {f : Element → Element} (h : ∀ e : Element, e.Quiet (f e)) :
    Leads Quiet (update id f) := leads_update fun _ _ _ => quiet_modifyElement fun e _ => h e

theorem quiet_markChanged (ids : List ElementId) : Leads Quiet (markChanged ids) :=
  leads_forM fun _ _ => quiet_update fun _ => ⟨rfl, rfl, rfl, rfl, rfl, fun h => h⟩

end Tree

end DataTree
