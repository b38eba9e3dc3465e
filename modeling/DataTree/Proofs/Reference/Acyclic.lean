import DataTree.Proofs.Tracking.Reading
import DataTree.Proofs.Typing.Again

/-!
# DataTree.Proofs.Reference.Acyclic

What an element leads on to, and trees in which nothing leads in a circle.

Reading an element goes on to what is below it and to what its pointer aliases; assigning
to a leaf goes on to the leaves that the references of its type lead to.  In an acyclic
tree both come to an end: there are no more steps than elements (`Acyclic.ends`), and the
fuel of reading stops nothing (`Ends.snapshotFrom_succ`).
-/

namespace DataTree

open Outcome

/-- Steps that give the same for each item of a list give the same for all of them. -/
theorem Outcome.mapM_congr {ε α β : Type} {f g : α → Except ε β} {as : List α}
    (h : ∀ a ∈ as, f a = g a) : as.mapM f = as.mapM g := by
  induction as with
  | nil => rfl
  | cons a as ih =>
    rw [List.mapM_cons, List.mapM_cons, h a List.mem_cons_self,
      ih fun b hb => h b (List.mem_cons_of_mem a hb)]

namespace LeafType

/-- The references among the candidates of types. -/
def referencesOf (types : List LeafType) : List ReferenceType :=
  (candidatesOf types).filterMap fun
    | .reference r => some r
    | _ => none

/-- The references that a value for a leaf of the type may be resolved along. -/
def references (type : LeafType) : List ReferenceType := referencesOf [type]

theorem references_union (types : List LeafType) :
    references (.union types) = referencesOf types := by
  rw [references, referencesOf, referencesOf, candidatesOf, candidates, candidatesOf,
    List.append_nil]

theorem referencesOf_cons (type : LeafType) (types : List LeafType) :
    referencesOf (type :: types) = type.references ++ referencesOf types := by
  simp only [references, referencesOf, candidatesOf, List.append_nil, List.filterMap_append]

end LeafType

namespace Tree

/-! ## Leading on -/

/-- The element that a path leads to, seen from an element, if that is the only target. -/
def aliased (t : Tree) (e : Element) (path : String) : List ElementId :=
  match t.targetsFrom e path with
  | [.element y] => [y]
  | _ => []

/-- Where an assignment to a field of the parent of an element goes. -/
def beside? (t : Tree) (e : Element) (field : String) : Option ElementId :=
  (e.parent.bind t.element?).bind fun p => Assoc.get? field p.setters

/-- What a leaf is an alias of. -/
def pointsTo (t : Tree) (e : Element) : Option LeafValue → List ElementId
  | some (.reference (.pointer path)) => t.aliased e path
  | _ => []

/-- The leaf that a reference leads to, and the one that a value for it goes to. -/
def refersTo (t : Tree) (e : Element) (r : ReferenceType) : List ElementId :=
  (t.aliased e r.path).flatMap fun y =>
    match t.element? y with
    | some ye => if ye.isLeaf then y :: (t.beside? ye r.leafName).toList else []
    | none => []

/-- What reading an element or assigning to it goes on to: all that is below it, and, for a leaf,
what it is an alias of and what the references of its type lead to. -/
def leadsOn (t : Tree) (x : ElementId) : List ElementId :=
  match t.element? x with
  | some e => e.below ++ match e.content with
    | .leaf slot => t.pointsTo e slot.value ++ slot.type.references.flatMap (t.refersTo e)
    | _ => []
  | none => []

/-- Nothing leads back to where it started. -/
def Acyclic (t : Tree) : Prop := ∀ x, ¬ Relation.TransGen (fun x y => y ∈ t.leadsOn x) x x

variable {t : Tree} {x y a : ElementId} {e : Element} {slot : LeafSlot} {n m : Nat}

/-- An element is an alias of the single one that its path leads to. -/
theorem mem_aliased_iff {path : String} :
    y ∈ t.aliased e path ↔ t.targetsFrom e path = [.element y] := by
  unfold aliased
  split
  · next found => simp [found, eq_comm]
  · next hno =>
    refine ⟨fun h => by simp at h, fun h => absurd h (hno y)⟩

/-- What a reference writes to: the leaf that it leads to, or one beside it. -/
theorem mem_refersTo_iff {r : ReferenceType} :
    y ∈ t.refersTo e r ↔ ∃ z ze, t.targetsFrom e r.path = [.element z] ∧ t.element? z = some ze ∧
      ze.isLeaf = true ∧ (y = z ∨ t.beside? ze r.leafName = some y) := by
  simp only [refersTo, List.mem_flatMap, mem_aliased_iff]
  constructor
  · rintro ⟨z, hz, hy⟩
    cases hze : t.element? z with
    | none => simp [hze] at hy
    | some ze =>
      simp only [hze] at hy
      split at hy
      · next hleaf => exact ⟨z, ze, hz, hze, hleaf, by simpa using hy⟩
      · simp at hy
  · rintro ⟨z, ze, hz, hze, hleaf, hy⟩
    exact ⟨z, hz, by simpa [hze, hleaf] using hy⟩

theorem leadsOn_of_none (h : t.element? x = none) : t.leadsOn x = [] := by rw [leadsOn, h]

theorem mem_leadsOn_of_below (he : t.element? x = some e) (hy : y ∈ e.below) : y ∈ t.leadsOn x := by
  rw [leadsOn, he]
  exact List.mem_append_left _ hy

/-- A leaf leads on to what is below it, and to what its value and its types refer to. -/
theorem mem_leadsOn_of_leaf (he : t.element? x = some e) (hslot : e.content = .leaf slot) :
    y ∈ t.leadsOn x ↔ y ∈ e.below ∨ y ∈ t.pointsTo e slot.value ∨
      ∃ r ∈ slot.type.references, y ∈ t.refersTo e r := by
  simp only [leadsOn, he, hslot, List.mem_append, List.mem_flatMap]

/-- An alias leads on to what it is an alias of. -/
theorem mem_leadsOn_of_pointer {path : String} (he : t.element? x = some e)
    (hslot : e.content = .leaf slot) (hvalue : slot.value = some (.reference (.pointer path)))
    (hy : t.targetsFrom e path = [.element y]) : y ∈ t.leadsOn x := by
  refine (mem_leadsOn_of_leaf he hslot).2 (.inr (.inl ?_))
  rw [hvalue]
  exact mem_aliased_iff.2 hy

/-- What comes later along a rank leads in no circle. -/
theorem acyclic_of_rank (rank : ElementId → Nat)
    (h : ∀ x ∈ t.ids, ∀ y ∈ t.leadsOn x, rank y < rank x) : t.Acyclic := by
  have hstep : ∀ {x y}, y ∈ t.leadsOn x → rank y < rank x := by
    intro x y hy
    cases he : t.element? x with
    | none => rw [leadsOn_of_none he] at hy; cases hy
    | some e => exact h x (mem_ids_iff.2 ⟨e, he⟩) y hy
  have hpath : ∀ {x y}, Relation.TransGen (fun x y => y ∈ t.leadsOn x) x y → rank y < rank x := by
    intro x y hxy
    induction hxy with
    | single hy => exact hstep hy
    | tail _ hz ih => exact Nat.lt_trans (hstep hz) ih
  exact fun x hx => Nat.lt_irrefl _ (hpath hx)

/-! ## Coming to an end -/

/-- Nothing leads on from an element for more than so many steps. -/
def Ends (t : Tree) : Nat → ElementId → Prop
  | 0, _ => False
  | n + 1, x => ∀ y ∈ t.leadsOn x, t.Ends n y

/-- What comes to an end within some steps does so within more. -/
theorem Ends.mono (h : t.Ends n x) (hle : n ≤ m) : t.Ends m x := by
  induction n generalizing m x with
  | zero => exact h.elim
  | succ n ih =>
    obtain ⟨m, rfl⟩ : ∃ m', m = m' + 1 := ⟨m - 1, by omega⟩
    exact fun y hy => ih (h y hy) (by omega)

theorem ends_of_none (h : t.element? x = none) : t.Ends 1 x := by
  intro y hy
  rw [leadsOn_of_none h] at hy
  cases hy

/-- Every step uses up one of the elements that are led to. -/
theorem Acyclic.ends_of_length (h : t.Acyclic) {rest : List ElementId} (hlen : rest.length ≤ n)
    (hrest : ∀ {y}, Relation.TransGen (fun x y => y ∈ t.leadsOn x) x y →
      (t.element? y).isSome → y ∈ rest) : t.Ends (n + 2) x := by
  induction n generalizing x rest with
  | zero =>
    intro y hy
    obtain rfl := List.eq_nil_of_length_eq_zero (Nat.le_zero.1 hlen)
    cases he : t.element? y with
    | none => exact ends_of_none he
    | some e => cases hrest (.single hy) (by rw [he]; rfl)
  | succ n ih =>
    intro y hy
    cases he : t.element? y with
    | none => exact (ends_of_none he).mono (by omega)
    | some e =>
      have hmem : y ∈ rest := hrest (.single hy) (by rw [he]; rfl)
      have herase : (rest.erase y).length ≤ n := by
        rw [List.length_erase_of_mem hmem]
        omega
      refine ih herase fun {z} hz hlive => ?_
      have hne : z ≠ y := fun heq => h y (heq ▸ hz)
      exact (List.mem_erase_of_ne hne).2 (hrest (.head hy hz) hlive)

/-- What an element leads on to comes to an end within the number of slots: it is not led to
again. -/
theorem Acyclic.ends (h : t.Acyclic) (he : t.element? x = some e) :
    t.Ends (t.slots.size + 1) x := by
  have hmem : x ∈ t.ids := mem_ids_iff.2 ⟨e, he⟩
  have hlen : (t.ids.erase x).length + 1 ≤ t.slots.size := by
    have hpos := List.length_pos_of_mem hmem
    have hsize : t.ids.length ≤ t.slots.size := by
      unfold ids
      exact (List.length_filter_le _ _).trans (by simp)
    rw [List.length_erase_of_mem hmem]
    omega
  refine (h.ends_of_length (Nat.le_refl _) fun {y} hy hlive => ?_).mono (Nat.succ_le_succ hlen)
  obtain ⟨ye, hye⟩ := Option.isSome_iff_exists.1 hlive
  have hyx : y ≠ x := fun heq => h x (heq ▸ hy)
  exact (List.mem_erase_of_ne hyx).2 (mem_ids_iff.2 ⟨ye, hye⟩)

/-! ## Reading -/

/-- **Reading comes to an end**: with more fuel an element reads the same. -/
theorem Ends.snapshotFrom_succ (h : t.Ends n x) :
    t.snapshotFrom n false x = t.snapshotFrom (n + 1) false x := by
  induction n generalizing x with
  | zero => exact h.elim
  | succ n ih =>
    cases he : t.element? x with
    | none => rw [snapshotFrom, snapshotFrom, element, he]; rfl
    | some e =>
      have hnamed : ∀ m : String × ElementId, m.2 ∈ e.below →
          t.readNamed n false m = t.readNamed (n + 1) false m := fun m hm => by
        rw [readNamed, readNamed, ih (h _ (mem_leadsOn_of_below he hm))]
      cases hc : e.content with
      | container =>
        have hread : e.children.mapM (t.readNamed n false) =
            e.children.mapM (t.readNamed (n + 1) false) :=
          mapM_congr fun m hm => hnamed m (Element.mem_below_of_child hm)
        rw [snapshotFrom_container he hc, snapshotFrom_container he hc, shownChildren_false]
        simp only [bind, Except.bind, hread]
      | list l =>
        have hread : l.members.mapM (t.readNamed n false) =
            l.members.mapM (t.readNamed (n + 1) false) :=
          mapM_congr fun m hm => hnamed m (Element.mem_below_of_entry hc hm)
        rw [snapshotFrom_list he hc, snapshotFrom_list he hc, hread]
      | leaf slot =>
        rw [snapshotFrom, snapshotFrom, element_eq_ok_iff.2 he]
        simp only [bind, Except.bind, hc]
        split
        · next path hvalue =>
          split
          · next y hone => exact ih (h y (mem_leadsOn_of_pointer he hc hvalue hone))
          all_goals rfl
        all_goals rfl
      | leafList l =>
        rw [snapshotFrom, snapshotFrom, element_eq_ok_iff.2 he]
        simp only [bind, Except.bind, hc]
      | custom c =>
        rw [snapshotFrom, snapshotFrom, element_eq_ok_iff.2 he]
        simp only [bind, Except.bind, hc]

/-- A leaf that is an alias of an element alone reads as that element does. -/
theorem Acyclic.value_of_pointer (h : t.Acyclic) {path : String} (he : t.element? a = some e)
    (hslot : e.content = .leaf slot) (hvalue : slot.value = some (.reference (.pointer path)))
    (hx : t.targetsFrom e path = [.element x]) : t.value a = t.value x := by
  have hread : t.value a = t.snapshotFrom t.slots.size false x := by
    rw [value, snapshot, snapshotFrom, element_eq_ok_iff.2 he]
    simp only [bind, Except.bind, hslot, hvalue, hx]
  have hends : t.Ends t.slots.size x := h.ends he x (mem_leadsOn_of_pointer he hslot hvalue hx)
  rw [hread, hends.snapshotFrom_succ]
  rfl

end Tree

end DataTree
