import DataTree.Proofs.Mirror.Session
import DataTree.Proofs.Rollback.Alike
import DataTree.Proofs.Structure.WellFormed

/-!
# DataTree.Proofs.RoundTrip.Confined

What happens to new elements is confined to them.

New elements are those in slots from `n` on.  An operation on one of them that unsets
nothing elsewhere, and writes through no reference, marks old elements at most
(`Alike`), and leaves their registrations as they were, in their order (`Saves`).  Without
choices, and with types that have no references, it is so for every operation on a new
element; and for the rest, an operation on a list that is old is confined up to the
change of this list.
-/

namespace DataTree.Tree

open Edit Outcome

variable {t t₀ t' : Tree} {pending : Set ElementId} {id root entry x : ElementId} {e : Element}
  {n : Nat} {p : Plan} {before : List (ElementId × Bool)} {s : ListSchema Schema}
  {pairs : List (String × String)}

/-! ## Steps that mark old elements at most -/

/-- A changed element is a new one, or is changed in its mark only. -/
theorem alike_modifyElement {f : Element → Element}
    (h : id.index < n → ∀ e : Element, (f e).unmarked = e.unmarked) :
    Alike n t (t.modifyElement id f) := by
  intro x hx
  rw [element?_modifyElement]
  split
  · next hxi =>
    rw [Option.map_map]
    exact congrArg (Option.map · _) (funext (h (hxi ▸ hx)))
  · rfl

/-- The same for an edit that changes an element. -/
theorem alike_update {f : Element → Element}
    (h : id.index < n → ∀ e : Element, (f e).unmarked = e.unmarked) :
    Leads (Alike n) (update id f) := leads_update fun _ _ _ => alike_modifyElement h

/-- Changing a new element leaves the old ones alike. -/
theorem alike_update_of_new (hid : n ≤ id.index) (f : Element → Element) :
    Leads (Alike n) (update id f) :=
  alike_update fun hlt => absurd hlt (Nat.not_lt.2 hid)

/-- Marking leaves all elements alike. -/
theorem alike_markChanged (ids : List ElementId) : Leads (Alike n) (markChanged ids) :=
  leads_forM fun _ _ => alike_update fun _ _ => rfl

theorem alike_restoreMarks (marks : List (ElementId × Bool)) :
    Leads (Alike n) (restoreMarks marks) :=
  leads_forM fun _ _ => alike_update fun _ _ => rfl

theorem alike_of_slots (h : t'.slots = t.slots) : Alike n t t' :=
  alike_of_element fun _ => element?_congr h _

/-- A plan that unsets nothing only marks. -/
theorem alike_commit (hp : p.unsets = []) : Leads (Alike n) (commit p) := by
  unfold commit
  rw [hp]
  exact (leads_forM fun _ hm => by cases hm).bind fun _ => alike_markChanged p.marks

/-! ## Removing and unsetting -/

/-- An element from `root` on, but for that itself, has its parent there. -/
theorem Sound.alike_removeSubtree (h : Sound t pending) (hr : t.Rooted root)
    (hid : root.index < id.index) : Alike root.index t ((Tree.removeSubtree id).on t).2 := by
  cases he : t.element? id with
  | none =>
    rw [on_removeSubtree_of_none he]
    exact refl_of (Alike _) t
  | some e =>
    obtain ⟨t', hon, hremoves⟩ := h.removeSubtree he
    rw [hon]
    refine alike_of_element fun {x} hx => ?_
    obtain ⟨p, hp, hle⟩ := hr he hid
    have hnot : ¬ t.Under id x := fun hu => absurd (h.index_le_of_under hu) (by omega)
    rw [hremoves.stays hnot, element?_detach, if_neg]
    rw [hp]
    rintro heq
    obtain rfl := Option.some.inj heq
    omega

/-- Unsetting a new element leaves the old ones alike. -/
theorem Sound.alike_unset (h : Sound t ∅) (hd : t.Declared) (hid : n ≤ id.index) :
    Alike n t ((Tree.unset id).on t).2 := by
  cases he : t.element? id with
  | none =>
    rw [on_unset_of_none he]
    exact refl_of (Alike n) t
  | some e =>
    refine rel_of_ensures ((h.unset hd he).mono (fun _ t' hun => ?_) fun _ _ hf => hf.elim)
    refine alike_of_element fun {x} hx => hun.stays fun hu => ?_
    exact absurd (h.index_le_of_under hu) (by omega)

/-! ## Assigning and editing -/

/-- Nothing declares choices. -/
def Choiceless (t : Tree) : Prop := ∀ {x e}, t.element? x = some e → e.choices = {}

/-- Without choices there are no cases to plan for. -/
theorem Mirrored.choiceless (h : Mirrored t) : t.Choiceless := fun he => (h.plain he).choices

theorem Choiceless.shrinks (h : t.Choiceless) (hs : t.Shrinks t') : t'.Choiceless := fun he => by
  obtain ⟨e, he₀, hse⟩ := hs.element he
  rw [Element.choices_of_bare hse.bare, h he₀]

/-- Assigning to a new leaf leaves the old elements alike. -/
theorem alike_setLeaf (hfree : t.Choiceless) (hid : n ≤ id.index) (raw : Value)
    (hplain : ∀ {e type}, t.element? id = some e → leafType e = .ok type →
      type.involvesReference = false) : Alike n t ((setLeaf id raw).on t).2 := by
  have hstop := refl_of (Alike n) t
  refine rel_of_ensures ?_
  rw [setLeaf, ensures_reading_bind]
  refine ⟨fun t₁ ht₁ => ?_, fun _ _ => hstop⟩
  obtain rfl : t = t₁ := Except.ok.inj ht₁
  rw [assignFrom, ensures_reading_bind]
  refine ⟨fun p hp => ?_, fun _ _ => hstop⟩
  rw [ensures_get_bind]
  refine ⟨fun e he => ?_, fun _ => hstop⟩
  rw [ensures_ofExcept_bind]
  refine ⟨fun type htype => ?_, fun _ _ => hstop⟩
  rw [constructOn_eq (hplain he htype), ensures_ofExcept_bind]
  refine ⟨fun value _ => ?_, fun _ _ => hstop⟩
  rw [unsets_of_planFrom hfree hp]
  exact ((leads_forM fun _ hm => by cases hm).bind fun _ =>
    (alike_update_of_new hid (store value)).bind fun _ => alike_markChanged p.marks).ensures t

/-- Editing the items of a new leaf-list leaves the old elements alike. -/
theorem alike_editItem (hfree : t.Choiceless) (hid : n ≤ id.index) (op : ItemEdit) :
    Alike n t ((editItem id op).on t).2 := by
  refine rel_of_ensures ?_
  rw [editItem, ensures_reading_bind]
  refine ⟨fun p hp => ?_, fun _ _ => refl_of (Alike n) t⟩
  unfold get
  refine ((leads_reading _).bind fun e => (leads_ofExcept _).bind fun r => ?_).ensures t
  obtain ⟨item, content⟩ := r
  refine (alike_update_of_new hid _).bind fun _ =>
    (alike_commit (unsets_of_planFrom hfree hp)).bind fun _ =>
    (leads_reading _).bind fun e => Leads.bind (leads_changing fun t => alike_of_slots ?_) fun _ =>
      leads_pure item
  split
  · exact slots_register _ _ _ _
  · exact slots_unregister _ _ _ _

/-- So does adding to them in bulk. -/
theorem alike_extend (hfree : t.Choiceless) (hid : n ≤ id.index) (raws : List Value) :
    Alike n t ((extend id raws).on t).2 := by
  refine rel_of_ensures ?_
  rw [extend, ensures_reading_bind]
  refine ⟨fun p hp => ?_, fun _ _ => refl_of (Alike n) t⟩
  unfold get
  refine ((leads_reading _).bind fun e => (leads_ofExcept _).bind fun r => ?_).ensures t
  obtain ⟨items, content⟩ := r
  refine (alike_update_of_new hid _).bind fun _ =>
    (alike_commit (unsets_of_planFrom hfree hp)).bind fun _ =>
    Leads.bind (leads_forM fun item _ => (leads_reading _).bind fun e => ?_) fun _ =>
      leads_pure items
  exact leads_changing fun t => alike_of_slots (slots_register _ _ _ _)

/-! ## Keys -/

/-- Assigning the key of a new entry. -/
theorem Arrives.alike_assignKey (h : t₀.Arrives s id entry before) (hfree : t₀.Choiceless)
    (h₀ : Sound t₀ pending) (hn : n ≤ entry.index) (hfields : ∀ q ∈ pairs, q.1 ∈ s.key.fields)
    (hs : t₀.Shrinks t) : Alike n t ((Tree.assignKey entry pairs).on t).2 := by
  refine rel_of_ensures ?_
  have hstop := refl_of (Alike n) t
  induction pairs generalizing t with
  | nil => exact hstop
  | cons q rest ih =>
    obtain ⟨field, part⟩ := q
    rw [Tree.assignKey, ensures_get_bind]
    refine ⟨fun ce hce => ?_, fun _ => hstop⟩
    rw [ensures_ofExcept_bind]
    refine ⟨fun leaf hleaf => ?_, fun _ _ => hstop⟩
    obtain ⟨le, hle, hlepar, hplain⟩ := h.leaf hs hce hleaf (hfields _ List.mem_cons_self)
    have hlt := h₀.parent_lt hle hlepar
    have hset := alike_setLeaf (n := n) (hfree.shrinks hs) (by omega) (.text part) hplain
    rw [ensures_bind]
    refine ((ensures_of_rel hset).and ((shrinks_setLeaf leaf (.text part)).ensures t)).mono
      (fun _ t₁ h₁ => ?_) fun _ _ hf => hf.1
    exact (ih (fun q hq => hfields q (List.mem_cons_of_mem _ hq)) (trans_of Shrinks hs h₁.2)
      (refl_of (Alike n) t₁)).mono (fun _ _ hd => trans_of (Alike n) h₁.1 hd)
      fun _ _ hf => trans_of (Alike n) h₁.1 hf

/-- Assigning it, or taking the entry back. -/
theorem Arrives.alike_tryAssignKey (h : t.Arrives s id entry before) (hfree : t.Choiceless)
    (hs : Sound t {entry}) (hn : n ≤ entry.index) (hfields : ∀ q ∈ pairs, q.1 ∈ s.key.fields) :
    (Tree.tryAssignKey entry pairs before).Ensures t (fun _ => Alike n t) fun _ => Alike n t := by
  rw [Tree.tryAssignKey, ensures_tryCatch]
  have hassign := h.alike_assignKey hfree hs hn hfields (refl_of Shrinks t)
  have hsound := (frameStable_sound {entry}).assignStable.assignKey entry pairs
  refine ((ensures_of_rel hassign).and (hsound.keeps hs)).mono (fun _ _ hd => hd.1)
    fun err t₁ h₁ => ?_
  refine ((h₁.2.removePending (Set.mem_singleton entry)).mono (fun _ _ hd => hd.2.2) fun _ _ hf =>
    hf.elim).bind fun _ t₂ hstays => ?_
  have hremove : Alike n t₁ t₂ := alike_of_element fun {x} hx => hstays x fun hu => by
    have hle := h₁.2.index_le_of_under hu
    omega
  have halike := trans_of (Alike n) h₁.1 hremove
  exact ((((alike_restoreMarks before).ensures t₂).mono (fun _ _ hd => trans_of (Alike n) halike hd)
    fun _ _ hf => trans_of (Alike n) halike hf)).bind fun _ _ hd => hd

end DataTree.Tree
