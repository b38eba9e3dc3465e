import DataTree.Proofs.Edit
import DataTree.Tree.Removal
import Mathlib.Data.List.Perm.Basic
import Mathlib.Data.List.Nodup

/-!
# DataTree.Proofs.Slots

What the single steps do to the slots of a tree: which element stands where, and
how many there are.  Telling and registering leave the slots alone; dropping an
element empties one slot; everything else changes one element or adds one at the
end.
-/

namespace DataTree.Tree

variable {t t' : Tree} {id other : ElementId} {e : Element}

/-! ## Elements -/

/-- Elements are found in the slots alone. -/
theorem element?_congr (h : t'.slots = t.slots) (id : ElementId) :
    t'.element? id = t.element? id := by rw [element?, element?, h]

/-- An element that is there stands within the slots. -/
theorem index_lt_of_element? (h : t.element? id = some e) : id.index < t.slots.size := by
  unfold element? at h
  by_contra hlt
  rw [Array.getElem?_eq_none (by omega)] at h
  cases h

/-- There is nothing behind the slots. -/
theorem element?_eq_none_of_size_le (h : t.slots.size ≤ id.index) : t.element? id = none := by
  rw [element?, Array.getElem?_eq_none h, Option.join_none]

/-- The identifiers of a tree are those of the elements in it. -/
theorem mem_ids_iff : id ∈ t.ids ↔ ∃ e, t.element? id = some e := by
  obtain ⟨i⟩ := id
  simp only [ids, List.mem_filter, List.mem_map, List.mem_range, Option.isSome_iff_exists]
  constructor
  · intro h; exact h.2
  · intro h
    obtain ⟨e, he⟩ := h
    exact ⟨⟨i, index_lt_of_element? he, rfl⟩, e, he⟩

/-- No identifier is listed twice. -/
theorem nodup_ids (t : Tree) : t.ids.Nodup := by
  refine List.Nodup.filter _ (List.Nodup.map ?_ List.nodup_range)
  intro i j h
  exact ElementId.mk.inj h

/-- Trees with elements in the same slots have equally many. -/
theorem length_ids_congr (h : ∀ id, (t'.element? id).isSome = (t.element? id).isSome) :
    t'.ids.length = t.ids.length := by
  refine List.Perm.length_eq ((List.perm_ext_iff_of_nodup t'.nodup_ids t.nodup_ids).2 ?_)
  intro id
  rw [mem_ids_iff, mem_ids_iff, ← Option.isSome_iff_exists, ← Option.isSome_iff_exists, h id]

/-- One element fewer. -/
theorem length_ids_of_removed (he : t.element? id = some e)
    (h : ∀ x, t'.element? x = if x = id then none else t.element? x) :
    t'.ids.length + 1 = t.ids.length := by
  have hmem : id ∈ t.ids := mem_ids_iff.2 ⟨e, he⟩
  have hperm : t'.ids.Perm (t.ids.erase id) := by
    rw [List.perm_ext_iff_of_nodup t'.nodup_ids (t.nodup_ids.erase id)]
    intro x
    rw [t.nodup_ids.mem_erase_iff, mem_ids_iff, mem_ids_iff, h x]
    by_cases hx : x = id <;> simp [hx]
  have hpos : 0 < t.ids.length := List.length_pos_of_mem hmem
  rw [hperm.length_eq, List.length_erase_of_mem hmem]
  omega

/-- One element more. -/
theorem length_ids_of_added (hid : t.element? id = none)
    (h : ∀ x, t'.element? x = if x = id then some e else t.element? x) :
    t'.ids.length = t.ids.length + 1 := by
  have hback : ∀ x, t.element? x = if x = id then none else t'.element? x := by
    intro x
    by_cases hx : x = id
    · rw [if_pos hx, hx, hid]
    · rw [if_neg hx, h x, if_neg hx]
  have he : t'.element? id = some e := by rw [h id, if_pos rfl]
  rw [← length_ids_of_removed he hback]

/-! ## Telling and registering -/

@[simp] theorem slots_tell (t : Tree) (ev : Event) : (t.tell ev).slots = t.slots := rfl

@[simp] theorem slots_register (t : Tree) (e : Element) (path : String) (x : Target) :
    (t.register e path x).slots = t.slots := by
  unfold register; split <;> rfl

@[simp] theorem live_register (t : Tree) (e : Element) (path : String) (x : Target) :
    (t.register e path x).live = t.live := by
  unfold register; split <;> rfl

@[simp] theorem madeKeys_register (t : Tree) (e : Element) (path : String) (x : Target) :
    (t.register e path x).madeKeys = t.madeKeys := by
  unfold register; split <;> rfl

@[simp] theorem slots_unregister (t : Tree) (e : Element) (path : String) (x : Target) :
    (t.unregister e path x).slots = t.slots := by
  unfold unregister; split <;> rfl

@[simp] theorem live_unregister (t : Tree) (e : Element) (path : String) (x : Target) :
    (t.unregister e path x).live = t.live := by
  unfold unregister; split <;> rfl

@[simp] theorem madeKeys_unregister (t : Tree) (e : Element) (path : String) (x : Target) :
    (t.unregister e path x).madeKeys = t.madeKeys := by
  unfold unregister; split <;> rfl

/-- Registering changes the registry only where the element registers. -/
theorem registry_register (t : Tree) (e : Element) (path : String) (x : Target) :
    (t.register e path x).registry =
      if e.registers then t.registry.register path x else t.registry := by
  unfold register; split <;> rfl

/-- So does unregistering. -/
theorem registry_unregister (t : Tree) (e : Element) (path : String) (x : Target) :
    (t.unregister e path x).registry
      = if e.registers then t.registry.unregisterTarget path x else t.registry := by
  unfold unregister; split <;> rfl

/-- Dropping the registrations of items changes nothing else. -/
theorem foldl_unregisterMember (e : Element) (items : List Value) (t : Tree) :
    let t' := items.foldl (fun t item => t.unregisterMember e item) t
    t'.slots = t.slots ∧ t'.live = t.live ∧ t'.madeKeys = t.madeKeys := by
  induction items generalizing t with
  | nil => exact ⟨rfl, rfl, rfl⟩
  | cons item items ih =>
    have h := ih (t.unregisterMember e item)
    simpa [unregisterMember] using h

/-- Where two trees agree on a part of their elements, an element of one has its like in the
other. -/
theorem exists_of_map_eq {α : Type} {part : Element → α}
    (h : (t'.element? id).map part = (t.element? id).map part) (he : t.element? id = some e) :
    ∃ e', t'.element? id = some e' ∧ part e' = part e := by
  rw [he, Option.map_some] at h
  exact Option.map_eq_some_iff.1 h

/-! ## Changing an element -/

@[simp] theorem size_slots_modifyElement (t : Tree) (id : ElementId) (f : Element → Element) :
    (t.modifyElement id f).slots.size = t.slots.size := by simp [modifyElement]

@[simp] theorem live_modifyElement (t : Tree) (id : ElementId) (f : Element → Element) :
    (t.modifyElement id f).live = t.live := rfl

@[simp] theorem madeKeys_modifyElement (t : Tree) (id : ElementId) (f : Element → Element) :
    (t.modifyElement id f).madeKeys = t.madeKeys := rfl

@[simp] theorem registry_modifyElement (t : Tree) (id : ElementId) (f : Element → Element) :
    (t.modifyElement id f).registry = t.registry := rfl

/-- The changed element. -/
theorem element?_modifyElement_self {f : Element → Element} (h : t.element? id = some e) :
    (t.modifyElement id f).element? id = some (f e) := by
  rw [element?_modifyElement, if_pos rfl, h, Option.map_some]

/-- All other elements stay as they are. -/
theorem element?_modifyElement_of_ne (h : other ≠ id) (f : Element → Element) :
    (t.modifyElement id f).element? other = t.element? other := by
  rw [element?_modifyElement, if_neg h]

/-- What stands when an element was changed stood there before, and only that one differs. -/
theorem modifyElement_cases {f : Element → Element} {x : ElementId} {e' : Element}
    (h : (t.modifyElement id f).element? x = some e') :
    ∃ e, t.element? x = some e ∧ ((x = id ∧ e' = f e) ∨ (x ≠ id ∧ e' = e)) := by
  rw [element?_modifyElement] at h
  split at h
  · next hx =>
    obtain ⟨e, he, rfl⟩ := Option.map_eq_some_iff.1 h
    exact ⟨e, he, .inl ⟨hx, rfl⟩⟩
  · next hx => exact ⟨e', h, .inr ⟨hx, rfl⟩⟩

/-- What the change leaves of the element, it leaves of every element. -/
theorem map_element?_modifyElement {α : Type} {part : Element → α} {f : Element → Element}
    {x : ElementId} (h : x = id → ∀ e, t.element? id = some e → part (f e) = part e) :
    ((t.modifyElement id f).element? x).map part = (t.element? x).map part := by
  rw [element?_modifyElement]
  split
  · next hx =>
    subst hx
    cases he : t.element? x with
    | none => rfl
    | some e => rw [Option.map_some, Option.map_some, Option.map_some, h rfl e he]
  · rfl

/-- A change of an element neither makes nor removes one. -/
theorem isSome_element?_modifyElement (t : Tree) (id : ElementId) (f : Element → Element)
    (x : ElementId) : ((t.modifyElement id f).element? x).isSome = (t.element? x).isSome := by
  rw [element?_modifyElement]
  split <;> simp

/-- Detaching an element changes its parent alone. -/
theorem element?_detach (t : Tree) (e : Element) (x : ElementId) :
    (t.detach e).element? x =
      if e.parent = some x then (t.element? x).map (·.detach e.name e.id) else t.element? x := by
  unfold detach
  cases h : e.parent with
  | none => simp
  | some parent =>
    simp only [element?_modifyElement, Option.some.injEq]
    by_cases hx : x = parent
    · simp [hx]
    · simp [hx, Ne.symm hx]

@[simp] theorem size_slots_detach (t : Tree) (e : Element) :
    (t.detach e).slots.size = t.slots.size := by
  unfold detach; split <;> simp

@[simp] theorem live_detach (t : Tree) (e : Element) : (t.detach e).live = t.live := by
  unfold detach; split <;> rfl

@[simp] theorem madeKeys_detach (t : Tree) (e : Element) :
    (t.detach e).madeKeys = t.madeKeys := by
  unfold detach; split <;> rfl

@[simp] theorem registry_detach (t : Tree) (e : Element) :
    (t.detach e).registry = t.registry := by
  unfold detach; split <;> rfl

/-! ## Dropping elements -/

/-- The tree with the slot of an element emptied. -/
def vacate (t : Tree) (id : ElementId) : Tree :=
  { t with slots := t.slots.setIfInBounds id.index none, live := t.live - 1 }

@[simp] theorem size_slots_vacate (t : Tree) (id : ElementId) :
    (t.vacate id).slots.size = t.slots.size := by simp [vacate]

@[simp] theorem live_vacate (t : Tree) (id : ElementId) : (t.vacate id).live = t.live - 1 := rfl

@[simp] theorem madeKeys_vacate (t : Tree) (id : ElementId) :
    (t.vacate id).madeKeys = t.madeKeys := rfl

@[simp] theorem registry_vacate (t : Tree) (id : ElementId) :
    (t.vacate id).registry = t.registry := rfl

/-- Vacating a slot removes its element and no other. -/
theorem element?_vacate (t : Tree) (id x : ElementId) :
    (t.vacate id).element? x = if x = id then none else t.element? x := by
  obtain ⟨i⟩ := id
  obtain ⟨j⟩ := x
  by_cases hij : j = i
  · subst hij
    by_cases hlt : j < t.slots.size <;> simp [vacate, element?, hlt]
  · have hji : ¬ i = j := fun h => hij h.symm
    simp [vacate, element?, hij, hji]

/-- Nothing is dropped where nothing is. -/
theorem drop_of_none (he : t.element? id = none) : t.drop id = t := by
  simp [drop, he]

/-- An element that is dropped leaves its slot, and then takes along the registrations of its
items and its own. -/
theorem drop_of_some (he : t.element? id = some e) :
    t.drop id = (e.content.members.foldl (fun t item => t.unregisterMember e item)
      (t.vacate id)).unregister e e.path (.element id) := by
  simp only [drop, he, vacate]

/-- What dropping an element leaves of the registry. -/
theorem registry_drop (he : t.element? id = some e) :
    (t.drop id).registry =
      let r :=
        (e.content.members.foldl (fun t item => t.unregisterMember e item) (t.vacate id)).registry
      if e.registers then r.unregisterTarget e.path (.element id) else r := by
  rw [drop_of_some he, registry_unregister]

/-- Taking registrations along leaves the slots alone. -/
theorem drop_slots (he : t.element? id = some e) :
    (t.drop id).slots = (t.vacate id).slots ∧ (t.drop id).live = (t.vacate id).live ∧
      (t.drop id).madeKeys = (t.vacate id).madeKeys := by
  have hm := foldl_unregisterMember e e.content.members (t.vacate id)
  rw [drop_of_some he, slots_unregister, live_unregister, madeKeys_unregister]
  exact hm

/-- Dropping an element changes no other one. -/
theorem element?_drop (t : Tree) (id x : ElementId) :
    (t.drop id).element? x = if x = id then none else t.element? x := by
  cases he : t.element? id with
  | none =>
    rw [drop_of_none he]
    split
    · next hx => rw [hx, he]
    · rfl
  | some e => rw [element?_congr (drop_slots he).1, element?_vacate]

/-- What stands when an element was dropped is another one, and stood there before. -/
theorem element?_drop_eq_some_iff {x : ElementId} {xe : Element} :
    (t.drop id).element? x = some xe ↔ x ≠ id ∧ t.element? x = some xe := by
  rw [element?_drop]
  by_cases hx : x = id <;> simp [hx]

@[simp] theorem size_slots_drop (t : Tree) (id : ElementId) :
    (t.drop id).slots.size = t.slots.size := by
  cases he : t.element? id with
  | none => rw [drop_of_none he]
  | some e => rw [(drop_slots he).1, size_slots_vacate]

@[simp] theorem madeKeys_drop (t : Tree) (id : ElementId) :
    (t.drop id).madeKeys = t.madeKeys := by
  cases he : t.element? id with
  | none => rw [drop_of_none he]
  | some e => rw [(drop_slots he).2.2, madeKeys_vacate]

/-- Dropping keeps the count of elements right. -/
theorem live_drop (h : t.live = t.ids.length) (id : ElementId) :
    (t.drop id).live = (t.drop id).ids.length := by
  cases he : t.element? id with
  | none => rw [drop_of_none he, h]
  | some e =>
    have hl := (drop_slots he).2.1
    have hids := length_ids_of_removed he (t.element?_drop id)
    rw [live_vacate] at hl
    omega

/-- Dropping elements empties their slots and counts them off. -/
theorem foldl_drop (doomed : List ElementId) (t : Tree) :
    let t' := doomed.foldl drop t
    (∀ x, t'.element? x = if x ∈ doomed then none else t.element? x) ∧
      t'.slots.size = t.slots.size ∧ t'.madeKeys = t.madeKeys ∧
      (t.live = t.ids.length → t'.live = t'.ids.length) := by
  induction doomed generalizing t with
  | nil => simp
  | cons id doomed ih =>
    obtain ⟨he, hs, hm, hl⟩ := ih (t.drop id)
    refine ⟨fun x => ?_, by simpa using hs, by simpa using hm, fun h => hl (live_drop h id)⟩
    rw [List.foldl_cons, he x, element?_drop]
    by_cases hx : x = id <;> simp [hx]

/-! ## Adding an element -/

/-- A new element stands in the slot behind all others. -/
theorem element?_push (t : Tree) (e : Element) (x : ElementId) {t' : Tree}
    (h : t'.slots = t.slots.push (some e)) :
    t'.element? x = if x = ⟨t.slots.size⟩ then some e else t.element? x := by
  obtain ⟨i⟩ := x
  simp only [element?, h, Array.getElem?_push, ElementId.mk.injEq]
  by_cases hi : i = t.slots.size <;> simp [hi]

end DataTree.Tree
