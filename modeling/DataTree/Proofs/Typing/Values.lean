import DataTree.Proofs.Frame
import DataTree.Proofs.Values

/-!
# DataTree.Proofs.Typing.Values

Which values a type admits, and that types make no others.

A type admits the values that satisfy it (`LeafType.Admits`), however they came about: a
union those of its candidates at any depth, a reference pointers along its own path and
whatever was kept in place of one.  Whatever a type makes of a raw value it admits
(`LeafType.admits_of_construct`), and so everything that a leaf-list takes in is the raw
form of a value that one of its types admits (`LeafList.conforms_of_edit`).
-/

namespace DataTree

open Outcome

/-! ## Leaf types -/

/-- However a precision comes by a decimal, the value has exactly its digits. -/
theorem Precision.scale_of_construct {p : Precision} {raw : Value} {q : FixedDecimal}
    (h : p.construct raw = .ok q) : q.value.scale = p.digits ∧ q.digits = p.digits := by
  unfold construct at h
  split at h
  · exact scale_of_fix h
  · split at h
    · exact scale_of_fix h
    · cases h

namespace LeafType

mutual

/-- The type admits the value: every restriction does, a decimal has exactly the digits of
the precision, and a pointer follows the path of the reference. -/
def Admits : LeafType → LeafValue → Prop
  | .text t, .text v => v.type = t ∧ t.admits v.value = true
  | .int t, .int v => v.type = t ∧ t.admits v.value = true
  | .uint t, .uint v => v.type = t ∧ t.admits v.value = true
  | .decimal p range, .decimal v =>
    v.value.scale = p.digits ∧ v.digits = p.digits ∧ range.admits v.value = true
  | .bool, .bool _ => True
  | .reference r, .reference v => ∀ path, v = .pointer path → path = r.path
  | .union candidates, v => AnyAdmits candidates v
  | _, _ => False

/-- One of the types admits the value. -/
def AnyAdmits : List LeafType → LeafValue → Prop
  | [], _ => False
  | t :: ts, v => Admits t v ∨ AnyAdmits ts v

end

variable {raw : Value}

/-- A union admits what one of its members does. -/
theorem anyAdmits_iff {types : List LeafType} {v : LeafValue} :
    AnyAdmits types v ↔ ∃ type ∈ types, type.Admits v := by
  induction types with
  | nil => simp [AnyAdmits]
  | cons type types ih => simp [AnyAdmits, ih]

/-- A constructed scalar knows its type, which admits it. -/
theorem admits_of_scalar {α : Type} [Scalar α] {t : ScalarType α} {v : Restricted α}
    (h : t.construct raw = .ok v) : v.type = t ∧ t.admits v.value = true := by
  obtain ⟨w, hw, rfl⟩ := map_eq_ok.1 h
  exact ⟨rfl, ScalarType.admits_of_check hw⟩

/-- The digits that a value came with do not matter any more when the range is checked. -/
theorem admits_of_constructPlain {type : LeafType} {v : LeafValue}
    (h : constructPlain raw type = .ok v) : type.Admits v := by
  cases type with
  | text t =>
    obtain ⟨w, hw, rfl⟩ := map_eq_ok.1 h
    exact admits_of_scalar hw
  | int t =>
    obtain ⟨w, hw, rfl⟩ := map_eq_ok.1 h
    exact admits_of_scalar hw
  | uint t =>
    obtain ⟨w, hw, rfl⟩ := map_eq_ok.1 h
    exact admits_of_scalar hw
  | decimal p range =>
    obtain ⟨q, hq, h⟩ := bind_eq_ok.1 h
    obtain ⟨d, hd, h⟩ := bind_eq_ok.1 h
    obtain rfl := pure_eq_ok.1 h
    obtain ⟨hscale, hdigits⟩ := Precision.scale_of_construct hq
    obtain ⟨hvalue, hadmits⟩ := ScalarType.check_eq_ok_iff.1 hd
    have hsame : some q.value = some d := hvalue
    exact ⟨hscale, hdigits, Option.some.inj hsame ▸ hadmits⟩
  | bool =>
    obtain ⟨w, -, rfl⟩ := map_eq_ok.1 h
    exact trivial
  | union candidates => cases h
  | reference r =>
    obtain rfl := Except.ok.inj h
    intro path hpath
    cases hpath

/-- A type without candidates makes a value of what is not absent. -/
theorem admits_of_plain {type : LeafType} {v : LeafValue}
    (h : (if raw.isEmpty then .ok none else (constructPlain raw type).map some) = .ok (some v)) :
    type.Admits v := by
  split at h
  · cases h
  · obtain ⟨w, hw, hv⟩ := map_eq_ok.1 h
    obtain rfl := Option.some.inj hv
    exact admits_of_constructPlain hw

mutual

/-- **What a type makes it admits.** -/
theorem admits_of_construct : ∀ {type : LeafType} {v : LeafValue},
    construct raw type = .ok (some v) → type.Admits v
  | .union candidates, v, h => by
    rw [construct] at h
    split at h
    · cases h
    · split at h
      · next w hw =>
        obtain rfl := Option.some.inj (Except.ok.inj h)
        rw [Admits]
        exact anyAdmits_of_constructFirst hw
      · cases h
  | .text _, v, h => by rw [construct] at h; exact admits_of_plain h; simp
  | .int _, v, h => by rw [construct] at h; exact admits_of_plain h; simp
  | .uint _, v, h => by rw [construct] at h; exact admits_of_plain h; simp
  | .decimal _ _, v, h => by rw [construct] at h; exact admits_of_plain h; simp
  | .bool, v, h => by rw [construct] at h; exact admits_of_plain h; simp
  | .reference _, v, h => by rw [construct] at h; exact admits_of_plain h; simp

/-- What the first accepting member makes is admitted by the union. -/
theorem anyAdmits_of_constructFirst :
    ∀ {types : List LeafType} {v : LeafValue}, constructFirst raw types = some v → AnyAdmits types v
  | [], v, h => by simp [constructFirst] at h
  | type :: types, v, h => by
    rw [constructFirst] at h
    rw [AnyAdmits]
    split at h
    · next w hw =>
      obtain rfl := Option.some.inj h
      exact .inl (admits_of_construct hw)
    · exact .inr (anyAdmits_of_constructFirst h)

end

end LeafType

/-! ## Leaf-lists -/

/-- An item that a leaf-list may hold: the raw form of a value that one of its types admits. -/
def LeafListType.Admits (type : LeafListType) (item : Value) : Prop :=
  ∃ t ∈ type.allowed, ∃ v, t.Admits v ∧ v.toValue = item

/-- An item that was checked is one that its type admits. -/
theorem LeafListType.admits_of_check {type : LeafListType} {raw item : Value}
    (h : type.check raw = .ok item) : type.Admits item := by
  unfold check at h
  split at h
  · next v hv =>
    obtain rfl := Except.ok.inj h
    obtain ⟨t, ht, hadmits⟩ := LeafType.anyAdmits_iff.1 (LeafType.anyAdmits_of_constructFirst hv)
    exact ⟨t, ht, v, hadmits, rfl⟩
  · cases h

namespace LeafList

/-- The type of the leaf-list admits every item. -/
def Conforms (l : LeafList) : Prop := ∀ item ∈ l.items, l.type.Admits item

/-- An edit leaves items that conform. -/
theorem conforms_of_edit {l l' : LeafList} {op : ItemEdit} {item : Value} (hl : l.Conforms)
    (h : l.edit op = .ok (item, l')) : l'.Conforms := by
  intro v hv
  rw [type_of_edit h]
  have hperm := perm_of_edit h
  cases hadds : op.adds with
  | false =>
    rw [hadds] at hperm
    exact hl v (hperm.mem_iff.2 (List.mem_cons_of_mem _ hv))
  | true =>
    rw [hadds] at hperm
    obtain rfl | hv := List.mem_cons.1 (hperm.mem_iff.1 hv)
    · -- What is added has passed the check of the type.
      cases op with
      | append raw | insert index raw =>
        obtain ⟨w, hw, h⟩ := bind_eq_ok.1 h
        obtain ⟨rfl, -⟩ := Prod.mk.inj (pure_eq_ok.1 h)
        exact LeafListType.admits_of_check hw
      | remove raw | pop index => cases hadds
    · exact hl v hv

/-- So does adding in bulk. -/
theorem conforms_of_extend {l l' : LeafList} {raws items : List Value} (hl : l.Conforms)
    (h : l.extend raws = .ok (items, l')) : l'.Conforms := by
  intro v hv
  rw [type_of_extend h]
  obtain ⟨ws, hws, h⟩ := bind_eq_ok.1 h
  obtain ⟨rfl, rfl⟩ := Prod.mk.inj (pure_eq_ok.1 h)
  obtain hv | hv := List.mem_append.1 hv
  · exact hl v hv
  · obtain ⟨raw, -, hcheck⟩ := mem_of_mapM hws hv
    exact LeafListType.admits_of_check hcheck

end LeafList

/-! ## Contents -/

namespace Content

/-- The type of a leaf admits its value, and that of a leaf-list its items. -/
def Conforms : Content → Prop
  | .leaf slot => ∀ v, slot.value = some v → slot.type.Admits v
  | .leafList l => l.Conforms
  | .container | .list _ | .custom _ => True

variable {c c' : Content}

theorem conforms_of_edit {op : ItemEdit} {item : Value} (hc : c.Conforms)
    (h : c.edit op = .ok (item, c')) : c'.Conforms := by
  cases c with
  | leafList l =>
    obtain ⟨⟨v, l'⟩, hedit, h⟩ := map_eq_ok.1 h
    obtain ⟨-, rfl⟩ := Prod.mk.inj h
    exact LeafList.conforms_of_edit hc hedit
  | custom base =>
    obtain ⟨⟨v, base'⟩, -, h⟩ := map_eq_ok.1 h
    obtain ⟨-, rfl⟩ := Prod.mk.inj h
    exact trivial
  | leaf slot => cases h
  | container => cases h
  | list l => cases h

theorem conforms_of_extend {raws items : List Value} (hc : c.Conforms)
    (h : c.extend raws = .ok (items, c')) : c'.Conforms := by
  cases c with
  | leafList l =>
    obtain ⟨⟨vs, l'⟩, hextend, h⟩ := map_eq_ok.1 h
    obtain ⟨-, rfl⟩ := Prod.mk.inj h
    exact LeafList.conforms_of_extend hc hextend
  | custom base =>
    obtain ⟨⟨vs, base'⟩, -, h⟩ := map_eq_ok.1 h
    obtain ⟨-, rfl⟩ := Prod.mk.inj h
    exact trivial
  | leaf slot => cases h
  | container => cases h
  | list l => cases h

/-- An empty content conforms. -/
theorem conforms_of_clear {removed : List Value} (h : c.clear = .ok (removed, c')) :
    c'.Conforms := by
  cases c with
  | leaf slot =>
    obtain ⟨-, rfl⟩ := Prod.mk.inj (Except.ok.inj h)
    intro v hv
    cases hv
  | leafList l =>
    obtain ⟨-, rfl⟩ := Prod.mk.inj (Except.ok.inj h)
    intro item hitem
    cases hitem
  | custom base =>
    obtain ⟨⟨vs, base'⟩, -, h⟩ := map_eq_ok.1 h
    obtain ⟨-, rfl⟩ := Prod.mk.inj h
    exact trivial
  | container => cases h
  | list l => cases h

end Content

end DataTree
