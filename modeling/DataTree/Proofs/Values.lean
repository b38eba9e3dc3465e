import DataTree.Element.Content
import DataTree.Proofs.Outcome
import DataTree.Proofs.Tables
import Mathlib.Data.List.Perm.Subperm
import Mathlib.Tactic.Ring

/-!
# DataTree.Proofs.Values

Equality of values is an equivalence among proper ones, in which every table has a
name once.  It is transitive in any case.  What a type makes of a proper value is
proper.
-/

namespace DataTree

open Outcome

/-- Equality of decimals, which is one of the numbers that they stand for. -/
theorem Decimal.same_trans {a b c : Decimal} (h : a.same b = true) (h' : b.same c = true) :
    a.same c = true := by
  rw [Decimal.same_iff] at h h' ⊢
  have hpos : (0 : Int) < Nat.pow 10 b.scale := by
    exact_mod_cast Nat.pow_pos (n := b.scale) (by decide : 0 < 10)
  refine Int.eq_of_mul_eq_mul_right (Int.ne_of_gt hpos) ?_
  calc a.coefficient * Nat.pow 10 c.scale * Nat.pow 10 b.scale
      = a.coefficient * Nat.pow 10 b.scale * Nat.pow 10 c.scale := by ring
    _ = b.coefficient * Nat.pow 10 c.scale * Nat.pow 10 a.scale := by rw [h]; ring
    _ = c.coefficient * Nat.pow 10 a.scale * Nat.pow 10 b.scale := by rw [h']; ring

namespace Value

/-! ## Equality of tables -/

/-- Every pair of the one table has an equal one in the other. -/
theorem sameFields_iff {as bs : List (String × Value)} :
    sameFields as bs = true ↔
      ∀ name a, (name, a) ∈ as → ∃ b, Assoc.get? name bs = some b ∧ same a b = true := by
  induction as with
  | nil => simp [sameFields]
  | cons p as ih =>
    obtain ⟨name, a⟩ := p
    rw [sameFields, Bool.and_eq_true, ih]
    constructor
    · intro h name' a' hm
      obtain hm | hm := List.mem_cons.1 hm
      · obtain ⟨rfl, rfl⟩ := Prod.mk.inj hm
        cases hb : Assoc.get? name' bs with
        | none => simp [hb] at h
        | some b => exact ⟨b, rfl, by simpa [hb] using h.1⟩
      · exact h.2 name' a' hm
    · intro h
      refine ⟨?_, fun name' a' hm => h name' a' (List.mem_cons_of_mem _ hm)⟩
      obtain ⟨b, hb, hs⟩ := h name a List.mem_cons_self
      rw [hb]
      exact hs

theorem proper_of_mem_fields {fields : List (String × Value)} (h : ProperFields fields)
    {name : String} {v : Value} (hm : (name, v) ∈ fields) : v.Proper := by
  induction fields with
  | nil => cases hm
  | cons p rest ih =>
    obtain ⟨name', w⟩ := p
    rw [ProperFields] at h
    obtain hm | hm := List.mem_cons.1 hm
    · obtain ⟨rfl, rfl⟩ := Prod.mk.inj hm
      exact h.1
    · exact ih h.2 hm

/-- A list of values is proper if each of them is. -/
theorem properItems_iff {items : List Value} : ProperItems items ↔ ∀ v ∈ items, v.Proper := by
  induction items with
  | nil => simp [ProperItems]
  | cons v items ih => rw [ProperItems, ih, List.forall_mem_cons]

/-- A table whose names are all in an equally long one has all names of that one. -/
theorem keys_subset_of_sameFields {as bs : List (String × Value)} (ha : (Assoc.keys as).Nodup)
    (hl : as.length = bs.length) (h : sameFields as bs = true) :
    Assoc.keys bs ⊆ Assoc.keys as := by
  have hsub : Assoc.keys as ⊆ Assoc.keys bs := by
    intro name hm
    obtain ⟨⟨name, a⟩, ha, rfl⟩ := List.mem_map.1 hm
    obtain ⟨b, hb, -⟩ := sameFields_iff.1 h name a ha
    exact Assoc.mem_keys_of_mem (Assoc.mem_of_get?_eq_some hb)
  have hperm : (Assoc.keys as).Perm (Assoc.keys bs) :=
    (List.subperm_of_subset ha hsub).perm_of_length_le (by simp [Assoc.keys, hl])
  exact hperm.symm.subset

/-! ## An equivalence -/

mutual

/-- Sameness of values is transitive. -/
theorem same_trans : ∀ {a b c : Value}, same a b = true → same b c = true → same a c = true
  | .empty, b, c, h, h' => by
    cases b <;> first | exact h' | simp [same] at h
  | .bool x, b, c, h, h' => by
    cases b <;> simp only [same, beq_iff_eq, Bool.false_eq_true] at h
    rw [h]
    exact h'
  | .int x, b, c, h, h' => by
    cases b <;> simp only [same, beq_iff_eq, Bool.false_eq_true] at h
    rw [h]
    exact h'
  | .uint x, b, c, h, h' => by
    cases b <;> simp only [same, beq_iff_eq, Bool.false_eq_true] at h
    rw [h]
    exact h'
  | .text x, b, c, h, h' => by
    cases b <;> simp only [same, beq_iff_eq, Bool.false_eq_true] at h
    rw [h]
    exact h'
  | .decimal x, b, c, h, h' => by
    cases b <;> simp only [same, Bool.false_eq_true] at h
    cases c <;> simp only [same, Bool.false_eq_true] at h'
    rw [same]
    exact Decimal.same_trans h h'
  | .list as, b, c, h, h' => by
    cases b <;> simp only [same, Bool.false_eq_true] at h
    cases c <;> simp only [same, Bool.false_eq_true] at h'
    rw [same]
    exact sameItems_trans h h'
  | .map as, b, c, h, h' => by
    cases b <;> simp only [same, Bool.false_eq_true] at h
    cases c <;> simp only [same, Bool.false_eq_true] at h'
    rw [Bool.and_eq_true, beq_iff_eq] at h h'
    rw [same, Bool.and_eq_true, beq_iff_eq]
    exact ⟨h.1.trans h'.1, sameFields_trans h.2 h'.2⟩

theorem sameItems_trans : ∀ {as bs cs : List Value}, sameItems as bs = true →
    sameItems bs cs = true → sameItems as cs = true
  | [], bs, cs, h, h' => by cases bs <;> simp_all [sameItems]
  | a :: as, [], cs, h, h' => by simp [sameItems] at h
  | a :: as, b :: bs, [], h, h' => by simp [sameItems] at h'
  | a :: as, b :: bs, c :: cs, h, h' => by
    rw [sameItems, Bool.and_eq_true] at h h' ⊢
    exact ⟨same_trans h.1 h'.1, sameItems_trans h.2 h'.2⟩

theorem sameFields_trans : ∀ {as bs cs : List (String × Value)}, sameFields as bs = true →
    sameFields bs cs = true → sameFields as cs = true
  | [], bs, cs, h, h' => by simp [sameFields]
  | (name, a) :: as, bs, cs, h, h' => by
    rw [sameFields, Bool.and_eq_true] at h ⊢
    refine ⟨?_, sameFields_trans h.2 h'⟩
    cases hb : Assoc.get? name bs with
    | none => simp [hb] at h
    | some b =>
      obtain ⟨c, hc, hbc⟩ := sameFields_iff.1 h' name b (Assoc.mem_of_get?_eq_some hb)
      rw [hc]
      exact same_trans (by simpa [hb] using h.1) hbc

end

mutual

/-- Every proper value is the same as itself. -/
theorem same_refl : ∀ {a : Value}, a.Proper → same a a = true
  | .empty, _ => by rw [same]
  | .bool x, _ => by rw [same, beq_self_eq_true]
  | .int x, _ => by rw [same, beq_self_eq_true]
  | .uint x, _ => by rw [same, beq_self_eq_true]
  | .text x, _ => by rw [same, beq_self_eq_true]
  | .decimal x, _ => by rw [same, Decimal.same_refl]
  | .list as, h => by
    rw [Proper] at h
    rw [same]
    exact sameItems_refl h
  | .map as, h => by
    rw [Proper] at h
    rw [same, beq_self_eq_true, Bool.true_and, sameFields_iff]
    intro name a hm
    exact ⟨a, Assoc.get?_eq_some_of_mem h.1 hm, same_refl_fields h.2 hm⟩

theorem sameItems_refl : ∀ {as : List Value}, ProperItems as → sameItems as as = true
  | [], _ => by rw [sameItems]
  | a :: as, h => by
    rw [ProperItems] at h
    rw [sameItems, same_refl h.1, sameItems_refl h.2, Bool.and_self]

theorem same_refl_fields : ∀ {as : List (String × Value)}, ProperFields as →
    ∀ {name a}, (name, a) ∈ as → same a a = true
  | (_, b) :: as, h, name, a, hm => by
    rw [ProperFields] at h
    have hb := same_refl h.1
    obtain hm | hm := List.mem_cons.1 hm
    · obtain ⟨-, rfl⟩ := Prod.mk.inj hm
      exact hb
    · exact same_refl_fields h.2 hm

end

mutual

/-- Sameness of proper values is symmetric. -/
theorem same_symm : ∀ {a b : Value}, a.Proper → b.Proper → same a b = true → same b a = true
  | .empty, b, _, _, h => by
    cases b <;> first | rfl | simp [same] at h
  | .bool x, b, _, _, h => by
    cases b <;> simp only [same, beq_iff_eq, Bool.false_eq_true] at h
    rw [h, same, beq_self_eq_true]
  | .int x, b, _, _, h => by
    cases b <;> simp only [same, beq_iff_eq, Bool.false_eq_true] at h
    rw [h, same, beq_self_eq_true]
  | .uint x, b, _, _, h => by
    cases b <;> simp only [same, beq_iff_eq, Bool.false_eq_true] at h
    rw [h, same, beq_self_eq_true]
  | .text x, b, _, _, h => by
    cases b <;> simp only [same, beq_iff_eq, Bool.false_eq_true] at h
    rw [h, same, beq_self_eq_true]
  | .decimal x, b, _, _, h => by
    cases b <;> simp only [same, Bool.false_eq_true] at h
    rw [same, Decimal.same_comm]
    exact h
  | .list as, b, ha, hb, h => by
    cases b <;> simp only [same, Bool.false_eq_true] at h
    rw [Proper] at ha hb
    rw [same]
    exact sameItems_symm ha hb h
  | .map as, b, ha, hb, h => by
    cases b <;> simp only [same, Bool.false_eq_true] at h
    next bs =>
    rw [Proper] at ha hb
    rw [Bool.and_eq_true, beq_iff_eq] at h
    rw [same, Bool.and_eq_true, beq_iff_eq, sameFields_iff]
    refine ⟨h.1.symm, fun name b hm => ?_⟩
    have hk := keys_subset_of_sameFields ha.1 h.1 h.2 (Assoc.mem_keys_of_mem hm)
    obtain ⟨⟨name, a⟩, hma, rfl⟩ := List.mem_map.1 hk
    obtain ⟨b', hb', hs⟩ := sameFields_iff.1 h.2 name a hma
    obtain rfl : b = b' := by
      rw [Assoc.get?_eq_some_of_mem hb.1 hm] at hb'
      exact Option.some.inj hb'
    exact ⟨a, Assoc.get?_eq_some_of_mem ha.1 hma,
      same_symm_fields ha.2 hma (proper_of_mem_fields hb.2 hm) hs⟩

theorem sameItems_symm : ∀ {as bs : List Value}, ProperItems as → ProperItems bs →
    sameItems as bs = true → sameItems bs as = true
  | [], bs, _, _, h => by cases bs <;> simp_all [sameItems]
  | a :: as, [], _, _, h => by simp [sameItems] at h
  | a :: as, b :: bs, ha, hb, h => by
    rw [ProperItems] at ha hb
    rw [sameItems, Bool.and_eq_true] at h ⊢
    exact ⟨same_symm ha.1 hb.1 h.1, sameItems_symm ha.2 hb.2 h.2⟩

theorem same_symm_fields : ∀ {as : List (String × Value)}, ProperFields as →
    ∀ {name a b}, (name, a) ∈ as → Proper b → same a b = true → same b a = true
  | (_, c) :: as, ha, name, a, b, hm, hb, h => by
    rw [ProperFields] at ha
    have hc : same c b = true → same b c = true := fun hs => same_symm ha.1 hb hs
    obtain hm | hm := List.mem_cons.1 hm
    · obtain ⟨-, rfl⟩ := Prod.mk.inj hm
      exact hc h
    · exact same_symm_fields ha.2 hm hb h

end

end Value

/-! ## What types make of values -/

namespace LeafType

/-- A reference keeps a value as it comes; every other type makes a plain one. -/
theorem proper_of_constructPlain {raw : Value} (hraw : raw.Proper) {type : LeafType} {v : LeafValue}
    (h : constructPlain raw type = .ok v) : v.toValue.Proper := by
  cases type with
  | text t =>
    obtain ⟨w, -, rfl⟩ := map_eq_ok.1 h
    simp [LeafValue.toValue, Value.Proper]
  | int t =>
    obtain ⟨w, -, rfl⟩ := map_eq_ok.1 h
    simp [LeafValue.toValue, Value.Proper]
  | uint t =>
    obtain ⟨w, -, rfl⟩ := map_eq_ok.1 h
    simp [LeafValue.toValue, Value.Proper]
  | decimal p range =>
    obtain ⟨q, -, h⟩ := bind_eq_ok.1 h
    obtain ⟨_, -, h⟩ := bind_eq_ok.1 h
    obtain rfl := pure_eq_ok.1 h
    simp [LeafValue.toValue, Value.Proper]
  | bool =>
    obtain ⟨w, -, rfl⟩ := map_eq_ok.1 h
    simp [LeafValue.toValue, Value.Proper]
  | union candidates => cases h
  | reference r =>
    obtain rfl := Except.ok.inj h
    exact hraw

/-- The plain types do not look at their candidates. -/
theorem proper_of_plain {raw : Value} (hraw : raw.Proper) {type : LeafType} {v : LeafValue}
    (h : (if raw.isEmpty then .ok none else (constructPlain raw type).map some) = .ok (some v)) :
    v.toValue.Proper := by
  split at h
  · cases h
  · obtain ⟨w, hw, hv⟩ := map_eq_ok.1 h
    obtain rfl := Option.some.inj hv
    exact proper_of_constructPlain hraw hw

mutual

/-- Types make proper values of proper ones. -/
theorem proper_of_construct {raw : Value} (hraw : raw.Proper) : ∀ {type : LeafType} {v : LeafValue},
    construct raw type = .ok (some v) → v.toValue.Proper
  | .union candidates, v, h => by
    rw [construct] at h
    split at h
    · cases h
    · split at h
      · next w hw =>
        obtain rfl := Option.some.inj (Except.ok.inj h)
        exact proper_of_constructFirst hraw hw
      · cases h
  | .text t, v, h => by rw [construct] at h; exact proper_of_plain hraw h; simp
  | .int t, v, h => by rw [construct] at h; exact proper_of_plain hraw h; simp
  | .uint t, v, h => by rw [construct] at h; exact proper_of_plain hraw h; simp
  | .decimal p r, v, h => by rw [construct] at h; exact proper_of_plain hraw h; simp
  | .bool, v, h => by rw [construct] at h; exact proper_of_plain hraw h; simp
  | .reference r, v, h => by rw [construct] at h; exact proper_of_plain hraw h; simp

theorem proper_of_constructFirst {raw : Value} (hraw : raw.Proper) :
    ∀ {types : List LeafType} {v : LeafValue}, constructFirst raw types = some v → v.toValue.Proper
  | [], v, h => by simp [constructFirst] at h
  | type :: types, v, h => by
    rw [constructFirst] at h
    split at h
    · next w hw =>
      obtain rfl := Option.some.inj h
      exact proper_of_construct hraw hw
    · exact proper_of_constructFirst hraw h

end

end LeafType

/-- An item made of a proper value is proper. -/
theorem LeafListType.proper_of_check {type : LeafListType} {raw v : Value} (hraw : raw.Proper)
    (h : type.check raw = .ok v) : v.Proper := by
  unfold LeafListType.check at h
  split at h
  · next w hw =>
    obtain rfl := Except.ok.inj h
    exact LeafType.proper_of_constructFirst hraw hw
  · cases h

/-! ## Items of leaf-lists -/

namespace LeafList

/-- What is popped was in the leaf-list, and nothing else is gone. -/
theorem perm_of_pop {l l' : LeafList} {index : Option Nat} {v : Value}
    (h : l.pop index = .ok (v, l')) : l.items.Perm (v :: l'.items) := by
  unfold pop at h
  simp only at h
  split at h
  · next w hw =>
    obtain ⟨rfl, rfl⟩ := Prod.mk.inj (Except.ok.inj h)
    obtain ⟨hlt, rfl⟩ := List.getElem?_eq_some_iff.1 hw
    exact (List.getElem_cons_eraseIdx_perm hlt).symm
  · cases h

/-- An added item is there in addition to the others, one taken away no longer is. -/
theorem perm_of_edit {l l' : LeafList} {op : ItemEdit} {v : Value} (h : l.edit op = .ok (v, l')) :
    if op.adds then l'.items.Perm (v :: l.items) else l.items.Perm (v :: l'.items) := by
  cases op with
  | append raw =>
    obtain ⟨w, -, h⟩ := bind_eq_ok.1 h
    obtain ⟨rfl, rfl⟩ := Prod.mk.inj (pure_eq_ok.1 h)
    exact List.perm_append_singleton _ _
  | insert index raw =>
    obtain ⟨w, -, h⟩ := bind_eq_ok.1 h
    obtain ⟨rfl, rfl⟩ := Prod.mk.inj (pure_eq_ok.1 h)
    have hm : (l.items.take index ++ w :: l.items.drop index).Perm
        (w :: (l.items.take index ++ l.items.drop index)) := List.perm_middle
    rw [List.take_append_drop] at hm
    exact hm
  | remove raw =>
    simp only [edit, remove] at h
    split at h
    · exact perm_of_pop h
    · cases h
  | pop index => exact perm_of_pop h

/-- What is added to proper items is proper. -/
theorem proper_of_edit {l l' : LeafList} {op : ItemEdit} {v : Value} (hop : op.Proper)
    (hl : ∀ w ∈ l.items, w.Proper) (h : l.edit op = .ok (v, l')) :
    v.Proper ∧ ∀ w ∈ l'.items, w.Proper := by
  have hperm := perm_of_edit h
  have hv : op.adds = true → v.Proper := by
    intro hadds
    cases op with
    | append raw =>
      obtain ⟨w, hw, h⟩ := bind_eq_ok.1 h
      obtain ⟨rfl, -⟩ := Prod.mk.inj (pure_eq_ok.1 h)
      exact LeafListType.proper_of_check hop hw
    | insert index raw =>
      obtain ⟨w, hw, h⟩ := bind_eq_ok.1 h
      obtain ⟨rfl, -⟩ := Prod.mk.inj (pure_eq_ok.1 h)
      exact LeafListType.proper_of_check hop hw
    | remove raw => cases hadds
    | pop index => cases hadds
  by_cases hadds : op.adds = true
  · rw [if_pos hadds] at hperm
    refine ⟨hv hadds, fun w hw => ?_⟩
    obtain rfl | hw := List.mem_cons.1 (hperm.mem_iff.1 hw)
    · exact hv hadds
    · exact hl w hw
  · rw [if_neg hadds] at hperm
    exact ⟨hl v (hperm.mem_iff.2 List.mem_cons_self),
      fun w hw => hl w (hperm.mem_iff.2 (List.mem_cons_of_mem v hw))⟩

/-- Several items are added behind the others. -/
theorem items_of_extend {l l' : LeafList} {raws vs : List Value}
    (h : l.extend raws = .ok (vs, l')) :
    l'.items = l.items ++ vs ∧ ((∀ raw ∈ raws, raw.Proper) → ∀ v ∈ vs, v.Proper) := by
  obtain ⟨ws, hws, h⟩ := bind_eq_ok.1 h
  obtain ⟨rfl, rfl⟩ := Prod.mk.inj (pure_eq_ok.1 h)
  refine ⟨rfl, fun hraws v hv => ?_⟩
  obtain ⟨raw, hraw, hcheck⟩ := mem_of_mapM hws hv
  exact LeafListType.proper_of_check (hraws raw hraw) hcheck

end LeafList

end DataTree
