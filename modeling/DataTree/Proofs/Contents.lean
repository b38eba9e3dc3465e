import DataTree.Proofs.Building
import DataTree.Proofs.Frame
import DataTree.Proofs.Values

/-!
# DataTree.Proofs.Contents

The items that contents hold, and what may be relied on where callers supply the base.

A tree sees the value of a supplied base only, and takes a sequence there for its items
(`Content.items`).  What else results rely on is named here:

* `Content.Proper`: what comes out is proper as long as what goes in is;
* `Content.HoldsAtMost` and `Content.HoldsAtLeast`: no items are there, or none are missing,
  beyond what was put in and not taken out again;
* `Content.Clears`: the content can be cleared at any time.

Leaves, leaf-lists, containers and lists keep all of this, in a box too.  For a base it is a
promise about everything that it may be asked from now on, and so operations keep it.
-/

namespace DataTree

open Outcome

/-- The items of a sequence; any other value has none. -/
def Value.items (v : Value) : List Value := v.list?.getD []

/-! ## Later states of supplied bases -/

namespace Base

/-- What carrying out an operation makes of a base. -/
inductive Next : Base → BaseOp → Base → Prop
  | edit {b b' op v} : b.edit op = .ok (v, b') → Next b (.edit op) b'
  | extend {b b' raws vs} : b.extend raws = .ok (vs, b') → Next b (.extend raws) b'
  | clear {b b' vs} : b.clear = .ok (vs, b') → Next b .clear b'

/-- Operations that are admitted, any number of them, lead from one base to the other. -/
def Reaches (admits : BaseOp → Prop) : Base → Base → Prop :=
  Relation.ReflTransGen fun b b' => ∃ op, admits op ∧ Next b op b'

variable {admits : BaseOp → Prop} {b b' b'' : Base} {op : BaseOp}

theorem Reaches.refl : Reaches admits b b := Relation.ReflTransGen.refl

/-- What is reached after an operation is reached. -/
theorem Next.reaches (h : Next b op b') (hop : admits op) (hr : Reaches admits b' b'') :
    Reaches admits b b'' := Relation.ReflTransGen.head ⟨op, hop, h⟩ hr

/-- The items that a base shows. -/
def items (b : Base) : List Value := b.now.supplied.items

end Base

/-! ## What is in a box -/

/-- What holds the items of a content. -/
inductive Content.Core where
  /-- There are none, but the value can be cleared. -/
  | leaf
  /-- There are none. -/
  | branch
  | leafList (l : LeafList)
  | base (b : Base)

mutual

/-- What holds the items of a content, out of any boxes. -/
def Content.core : Content → Content.Core
  | .leaf _ => .leaf
  | .leafList l => .leafList l
  | .container | .list _ => .branch
  | .custom c => c.core

def Custom.core : Custom → Content.Core
  | .base b => .base b
  | .boxed c => c.core

end

mutual

/-- An item is changed in a leaf-list or in a supplied base. -/
theorem Content.edit_cases {op : ItemEdit} :
    ∀ {c c' : Content} {v : Value}, c.edit op = .ok (v, c') →
    (∃ l l', c.core = .leafList l ∧ l.edit op = .ok (v, l') ∧ c'.core = .leafList l') ∨
      ∃ b b', c.core = .base b ∧ b.edit op = .ok (v, b') ∧ c'.core = .base b'
  | .leafList l, c', v, h => by
    rw [Content.edit] at h
    obtain ⟨⟨w, l'⟩, hl, h⟩ := map_eq_ok.1 h
    obtain ⟨rfl, rfl⟩ := Prod.mk.inj h
    exact .inl ⟨l, l', rfl, hl, rfl⟩
  | .custom c, c', v, h => by
    rw [Content.edit] at h
    obtain ⟨⟨w, c''⟩, hc, h⟩ := map_eq_ok.1 h
    obtain ⟨rfl, rfl⟩ := Prod.mk.inj h
    exact Custom.edit_cases hc
  | .leaf _, _, _, h | .container, _, _, h | .list _, _, _, h => by simp [Content.edit] at h

/-- A custom content is edited by the leaf-list that it comes to, or by its base. -/
theorem Custom.edit_cases {op : ItemEdit} : ∀ {c c' : Custom} {v : Value}, c.edit op = .ok (v, c') →
    (∃ l l', c.core = .leafList l ∧ l.edit op = .ok (v, l') ∧ c'.core = .leafList l') ∨
      ∃ b b', c.core = .base b ∧ b.edit op = .ok (v, b') ∧ c'.core = .base b'
  | .base b, c', v, h => by
    rw [Custom.edit] at h
    obtain ⟨⟨w, b'⟩, hb, h⟩ := map_eq_ok.1 h
    obtain ⟨rfl, rfl⟩ := Prod.mk.inj h
    exact .inr ⟨b, b', rfl, hb, rfl⟩
  | .boxed c, c', v, h => by
    rw [Custom.edit] at h
    obtain ⟨⟨w, c''⟩, hc, h⟩ := map_eq_ok.1 h
    obtain ⟨rfl, rfl⟩ := Prod.mk.inj h
    exact Content.edit_cases hc

end

mutual

/-- So are several items. -/
theorem Content.extend_cases {raws : List Value} : ∀ {c c' : Content} {vs : List Value},
    c.extend raws = .ok (vs, c') →
      (∃ l l', c.core = .leafList l ∧ l.extend raws = .ok (vs, l') ∧ c'.core = .leafList l') ∨
        ∃ b b', c.core = .base b ∧ b.extend raws = .ok (vs, b') ∧ c'.core = .base b'
  | .leafList l, c', vs, h => by
    rw [Content.extend] at h
    obtain ⟨⟨ws, l'⟩, hl, h⟩ := map_eq_ok.1 h
    obtain ⟨rfl, rfl⟩ := Prod.mk.inj h
    exact .inl ⟨l, l', rfl, hl, rfl⟩
  | .custom c, c', vs, h => by
    rw [Content.extend] at h
    obtain ⟨⟨ws, c''⟩, hc, h⟩ := map_eq_ok.1 h
    obtain ⟨rfl, rfl⟩ := Prod.mk.inj h
    exact Custom.extend_cases hc
  | .leaf _, _, _, h | .container, _, _, h | .list _, _, _, h => by simp [Content.extend] at h

/-- A custom content is extended by the leaf-list that it comes to, or by its base. -/
theorem Custom.extend_cases {raws : List Value} : ∀ {c c' : Custom} {vs : List Value},
    c.extend raws = .ok (vs, c') →
      (∃ l l', c.core = .leafList l ∧ l.extend raws = .ok (vs, l') ∧ c'.core = .leafList l') ∨
        ∃ b b', c.core = .base b ∧ b.extend raws = .ok (vs, b') ∧ c'.core = .base b'
  | .base b, c', vs, h => by
    rw [Custom.extend] at h
    obtain ⟨⟨ws, b'⟩, hb, h⟩ := map_eq_ok.1 h
    obtain ⟨rfl, rfl⟩ := Prod.mk.inj h
    exact .inr ⟨b, b', rfl, hb, rfl⟩
  | .boxed c, c', vs, h => by
    rw [Custom.extend] at h
    obtain ⟨⟨ws, c''⟩, hc, h⟩ := map_eq_ok.1 h
    obtain ⟨rfl, rfl⟩ := Prod.mk.inj h
    exact Content.extend_cases hc

end

mutual

/-- What can be cleared is a leaf, a leaf-list or a supplied base. -/
theorem Content.clear_cases : ∀ {c c' : Content} {vs : List Value}, c.clear = .ok (vs, c') →
    c.core = .leaf ∧ c'.core = .leaf ∨
      (∃ l l', c.core = .leafList l ∧ c'.core = .leafList l' ∧ l'.items = []) ∨
        ∃ b b', c.core = .base b ∧ b.clear = .ok (vs, b') ∧ c'.core = .base b'
  | .leaf slot, c', vs, h => by
    simp only [Content.clear, Except.ok.injEq, Prod.mk.injEq] at h
    obtain ⟨-, rfl⟩ := h
    exact .inl ⟨rfl, rfl⟩
  | .leafList l, c', vs, h => by
    simp only [Content.clear, LeafList.clear, Except.ok.injEq, Prod.mk.injEq] at h
    obtain ⟨-, rfl⟩ := h
    exact .inr (.inl ⟨l, _, rfl, rfl, rfl⟩)
  | .custom c, c', vs, h => by
    rw [Content.clear] at h
    obtain ⟨⟨ws, c''⟩, hc, h⟩ := map_eq_ok.1 h
    obtain ⟨rfl, rfl⟩ := Prod.mk.inj h
    exact Custom.clear_cases hc
  | .container, _, _, h | .list _, _, _, h => by simp [Content.clear] at h

/-- What clearing does to a custom content: nothing to a leaf, and a leaf-list is empty after it. -/
theorem Custom.clear_cases : ∀ {c c' : Custom} {vs : List Value}, c.clear = .ok (vs, c') →
    c.core = .leaf ∧ c'.core = .leaf ∨
      (∃ l l', c.core = .leafList l ∧ c'.core = .leafList l' ∧ l'.items = []) ∨
        ∃ b b', c.core = .base b ∧ b.clear = .ok (vs, b') ∧ c'.core = .base b'
  | .base b, c', vs, h => by
    rw [Custom.clear] at h
    obtain ⟨⟨ws, b'⟩, hb, h⟩ := map_eq_ok.1 h
    obtain ⟨rfl, rfl⟩ := Prod.mk.inj h
    exact .inr (.inr ⟨b, b', rfl, hb, rfl⟩)
  | .boxed c, c', vs, h => by
    rw [Custom.clear] at h
    obtain ⟨⟨ws, c''⟩, hc, h⟩ := map_eq_ok.1 h
    obtain ⟨rfl, rfl⟩ := Prod.mk.inj h
    exact Content.clear_cases hc

end

/-! ## Items -/

namespace Content

variable {c c' : Content} {op : ItemEdit} {v : Value} {raws vs : List Value} {l : LeafList}
  {b : Base}

/-- The items of a content. -/
def items (c : Content) : List Value :=
  match c.core with
  | .leafList l => l.items
  | .base b => b.items
  | _ => []

/-- Contents with the same core have the same items. -/
theorem items_congr (h : c'.core = c.core) : c'.items = c.items := by rw [items, items, h]

theorem items_of_leafList (h : c.core = .leafList l) : c.items = l.items := by rw [items, h]

theorem items_of_base (h : c.core = .base b) : c.items = b.items := by rw [items, h]

/-- Whether a content is a supplied base, or something in a box. -/
def isCustom : Content → Bool
  | custom _ => true
  | _ => false

theorem isCustom_iff : c.isCustom = true ↔ ∃ base, c = .custom base := by
  cases c <;> simp [isCustom]

theorem isCustom_of_bare (h : c'.bare = c.bare) : c'.isCustom = c.isCustom := by
  cases c <;> cases c' <;> first | rfl | simp [bare] at h

/-- The items of all others are those that are registered one by one. -/
theorem items_of_not_custom (h : c.isCustom = false) : c.items = c.members := by
  cases c <;> first | rfl | cases h

/-- The items that are registered one by one are among those that are held. -/
theorem members_sublist (c : Content) : c.members.Sublist c.items := by
  cases c with
  | custom c => exact List.nil_sublist _
  | _ => exact .refl _

/-- The items that a content registers: none if it is custom. -/
theorem members_eq (c : Content) : c.members = if c.isCustom then [] else c.items := by
  cases c <;> rfl

end Content

/-! ## Proper values -/

/-- Proper values get proper answers. -/
structure Answers.Proper (a : Answers) : Prop where
  supplied : a.supplied.Proper
  snapshot : a.snapshot.Proper
  edit : ∀ {op v}, op.Proper → a.edit op = .ok v → v.Proper
  extend : ∀ {raws vs}, (∀ raw ∈ raws, raw.Proper) → a.extend raws = .ok vs → ∀ v ∈ vs, v.Proper

namespace Base

/-- Whatever proper values a base is handed, it answers with proper ones. -/
def Proper (b : Base) : Prop := ∀ ⦃b'⦄, b.Reaches BaseOp.Proper b' → b'.now.Proper

variable {b b' : Base}

/-- What a base makes of proper values is proper. -/
theorem Proper.next {op : BaseOp} (h : b.Proper) (hn : Next b op b') (hop : op.Proper) :
    b'.Proper :=
  fun _ hr => h (hn.reaches hop hr)

/-- The items of a proper base are proper values. -/
theorem Proper.items (h : b.Proper) : ∀ v ∈ b.items, v.Proper := by
  have hsupplied := (h .refl).supplied
  unfold Base.items Value.items
  cases hvalue : b.now.supplied with
  | list vs =>
    rw [hvalue, Value.Proper] at hsupplied
    exact Value.properItems_iff.1 hsupplied
  | _ => exact fun v hv => by cases hv

/-- Editing a proper base gives a proper item and leaves proper ones. -/
theorem Proper.of_edit {op : ItemEdit} {v : Value} (h : b.Proper) (hedit : b.edit op = .ok (v, b'))
    (hop : op.Proper) : v.Proper ∧ b'.Proper := by
  obtain ⟨w, hw, heq⟩ := map_eq_ok.1 hedit
  obtain ⟨rfl, -⟩ := Prod.mk.inj heq
  exact ⟨(h .refl).edit hop hw, h.next (.edit hedit) hop⟩

/-- Extending a proper base gives proper items and leaves proper ones. -/
theorem Proper.of_extend {raws vs : List Value} (h : b.Proper)
    (hextend : b.extend raws = .ok (vs, b')) (hraws : ∀ raw ∈ raws, raw.Proper) :
    (∀ v ∈ vs, v.Proper) ∧ b'.Proper := by
  obtain ⟨ws, hws, heq⟩ := map_eq_ok.1 hextend
  obtain ⟨rfl, -⟩ := Prod.mk.inj heq
  exact ⟨(h .refl).extend hraws hws, h.next (.extend hextend) hraws⟩

end Base

namespace Content

variable {c c' : Content} {op : ItemEdit} {v : Value} {raws vs : List Value}

/-- Items are proper, and stay so as long as proper values are added. -/
def Proper (c : Content) : Prop :=
  match c.core with
  | .leafList l => ∀ v ∈ l.items, v.Proper
  | .base b => b.Proper
  | _ => True

/-- Whether a content is proper depends on its core alone. -/
theorem proper_congr (h : c'.core = c.core) : c'.Proper ↔ c.Proper := by rw [Proper, Proper, h]

/-- A content that comes to a leaf-list is proper if its items are. -/
theorem proper_iff_of_leafList {l : LeafList} (h : c.core = .leafList l) :
    c.Proper ↔ ∀ v ∈ l.items, v.Proper := by rw [Proper, h]

/-- A content that comes to a base is proper if the base is. -/
theorem proper_iff_of_base {b : Base} (h : c.core = .base b) : c.Proper ↔ b.Proper := by
  rw [Proper, h]

/-- The items of a proper content are proper values. -/
theorem Proper.items (h : c.Proper) : ∀ v ∈ c.items, v.Proper := by
  unfold Proper at h
  unfold Content.items
  split
  · next l hl =>
    rw [hl] at h
    exact h
  · next b hb =>
    rw [hb] at h
    exact Base.Proper.items h
  · exact fun v hv => by cases hv

theorem Proper.members (h : c.Proper) : ∀ v ∈ c.members, v.Proper :=
  fun v hv => h.items v (c.members_sublist.subset hv)

/-- Changing proper items leaves proper ones. -/
theorem proper_of_edit (h : c.edit op = .ok (v, c')) (hop : op.Proper) (hc : c.Proper) :
    v.Proper ∧ c'.Proper := by
  obtain ⟨l, l', hl, hedit, hl'⟩ | ⟨b, b', hb, hedit, hb'⟩ := edit_cases h
  · rw [proper_iff_of_leafList hl']
    exact LeafList.proper_of_edit hop ((proper_iff_of_leafList hl).1 hc) hedit
  · rw [proper_iff_of_base hb']
    exact ((proper_iff_of_base hb).1 hc).of_edit hedit hop

/-- Extending a proper content gives proper items and leaves proper ones. -/
theorem proper_of_extend (h : c.extend raws = .ok (vs, c')) (hraws : ∀ raw ∈ raws, raw.Proper)
    (hc : c.Proper) : (∀ v ∈ vs, v.Proper) ∧ c'.Proper := by
  obtain ⟨l, l', hl, hextend, hl'⟩ | ⟨b, b', hb, hextend, hb'⟩ := extend_cases h
  · obtain ⟨hitems, hproper⟩ := LeafList.items_of_extend hextend
    rw [proper_iff_of_leafList hl', hitems]
    refine ⟨hproper hraws, fun v hv => ?_⟩
    exact (List.mem_append.1 hv).elim ((proper_iff_of_leafList hl).1 hc v) (hproper hraws v)
  · rw [proper_iff_of_base hb']
    exact ((proper_iff_of_base hb).1 hc).of_extend hextend hraws

/-- What is left of a proper content after clearing is proper. -/
theorem proper_of_clear (h : c.clear = .ok (vs, c')) (hc : c.Proper) : c'.Proper := by
  obtain ⟨-, hleaf⟩ | ⟨l, l', -, hl', hnil⟩ | ⟨b, b', hb, hclear, hb'⟩ := clear_cases h
  · rw [Proper, hleaf]
    trivial
  · rw [proper_iff_of_leafList hl', hnil]
    exact fun v hv => by cases hv
  · rw [proper_iff_of_base hb']
    exact ((proper_iff_of_base hb).1 hc).next (.clear hclear) trivial

end Content

/-! ## Keeping account of items -/

/-- The items that a base shows compare by `R` to those that it should have: the ones before,
with those that were added and without those that were taken away. -/
structure Base.Tallies (R : List Value → List Value → Prop) (b : Base) : Prop where
  adds : ∀ {b₁ b₂ op v}, b.Reaches BaseOp.Proper b₁ → op.Proper → op.adds = true →
    b₁.edit op = .ok (v, b₂) → R b₂.items (v :: b₁.items)
  takes : ∀ {b₁ b₂ op v}, b.Reaches BaseOp.Proper b₁ → op.Proper → op.adds = false →
    b₁.edit op = .ok (v, b₂) → R (v :: b₂.items) b₁.items
  extend : ∀ {b₁ b₂ raws vs}, b.Reaches BaseOp.Proper b₁ → (∀ raw ∈ raws, raw.Proper) →
    b₁.extend raws = .ok (vs, b₂) → R b₂.items (vs ++ b₁.items)
  clear : ∀ {b₁ b₂ vs}, b.Reaches BaseOp.Proper b₁ → b₁.clear = .ok (vs, b₂) → R b₂.items []

variable {R : List Value → List Value → Prop}

/-- A base that keeps its books goes on keeping them. -/
theorem Base.Tallies.next {b b' : Base} {op : BaseOp} (h : b.Tallies R) (hn : Next b op b')
    (hop : op.Proper) : b'.Tallies R where
  adds := fun hr => h.adds (hn.reaches hop hr)
  takes := fun hr => h.takes (hn.reaches hop hr)
  extend := fun hr => h.extend (hn.reaches hop hr)
  clear := fun hr => h.clear (hn.reaches hop hr)

namespace Content

variable {c c' : Content} {op : ItemEdit} {v : Value} {raws vs : List Value}

/-- The same for any content; what is not supplied keeps account of its items. -/
def Tallies (R : List Value → List Value → Prop) (c : Content) : Prop :=
  ∀ ⦃b⦄, c.core = .base b → b.Tallies R

/-- Whether a content keeps its books depends on its core alone. -/
theorem tallies_congr (h : c'.core = c.core) : c'.Tallies R ↔ c.Tallies R := by
  rw [Tallies, Tallies, h]

/-- Leaf-lists keep their books: what comes and goes is exactly what is reported. -/
theorem tallies_of_leafList {l : LeafList} (h : c.core = .leafList l) : c.Tallies R :=
  fun b hb => by
  rw [h] at hb
  cases hb

/-- A content that comes to a base keeps its books if the base does. -/
theorem tallies_of_base {b : Base} (h : c.core = .base b) (hb : b.Tallies R) : c.Tallies R :=
  fun b' hb' => by
    obtain rfl : b = b' := by simpa [h] using hb'
    exact hb

/-- The contents of the library itself keep their books. -/
theorem tallies_of_not_custom (h : c.isCustom = false) : c.Tallies R := fun b hb => by
  cases c <;> first | cases hb | cases h

variable (hR : ∀ {vs ws : List Value}, vs.Perm ws → R vs ws)
include hR

/-- An edit adds or takes away the item that it reports, and the books are kept on. -/
theorem tallies_of_edit (h : c.edit op = .ok (v, c')) (hop : op.Proper) (hc : c.Tallies R) :
    c'.Tallies R ∧ if op.adds then R c'.items (v :: c.items) else R (v :: c'.items) c.items := by
  obtain ⟨l, l', hl, hedit, hl'⟩ | ⟨b, b', hb, hedit, hb'⟩ := edit_cases h
  · have hperm := LeafList.perm_of_edit hedit
    rw [items_of_leafList hl, items_of_leafList hl']
    refine ⟨tallies_of_leafList hl', ?_⟩
    by_cases hadds : op.adds = true
    · rw [if_pos hadds] at hperm ⊢
      exact hR hperm
    · rw [if_neg hadds] at hperm ⊢
      exact hR hperm.symm
  · rw [items_of_base hb, items_of_base hb']
    refine ⟨tallies_of_base hb' ((hc hb).next (.edit hedit) hop), ?_⟩
    split
    · next hadds => exact (hc hb).adds .refl hop hadds hedit
    · next hadds => exact (hc hb).takes .refl hop (by simpa using hadds) hedit

/-- Adding in bulk adds the items that it reports, and the books are kept on. -/
theorem tallies_of_extend (h : c.extend raws = .ok (vs, c')) (hraws : ∀ raw ∈ raws, raw.Proper)
    (hc : c.Tallies R) : c'.Tallies R ∧ R c'.items (vs ++ c.items) := by
  obtain ⟨l, l', hl, hextend, hl'⟩ | ⟨b, b', hb, hextend, hb'⟩ := extend_cases h
  · rw [items_of_leafList hl, items_of_leafList hl', (LeafList.items_of_extend hextend).1]
    exact ⟨tallies_of_leafList hl', hR List.perm_append_comm⟩
  · rw [items_of_base hb, items_of_base hb']
    exact ⟨tallies_of_base hb' ((hc hb).next (.extend hextend) hraws),
      (hc hb).extend .refl hraws hextend⟩

/-- Clearing leaves no items, and the books are kept on. -/
theorem tallies_of_clear (h : c.clear = .ok (vs, c')) (hc : c.Tallies R) :
    c'.Tallies R ∧ R c'.items [] := by
  obtain ⟨-, hleaf⟩ | ⟨l, l', -, hl', hnil⟩ | ⟨b, b', hb, hclear, hb'⟩ := clear_cases h
  · refine ⟨fun b hb => ?_, ?_⟩
    · rw [hleaf] at hb
      cases hb
    · rw [items, hleaf]
      exact hR (.refl _)
  · rw [items_of_leafList hl', hnil]
    exact ⟨tallies_of_leafList hl', hR (.refl _)⟩
  · rw [items_of_base hb']
    exact ⟨tallies_of_base hb' ((hc hb).next (.clear hclear) trivial), (hc hb).clear .refl hclear⟩

end Content

namespace Content

variable {c c' : Content} {op : ItemEdit} {v : Value} {raws vs : List Value}

/-- A content holds no item but those that were put in and not taken out again. -/
def HoldsAtMost (c : Content) : Prop := c.Tallies List.Subperm

/-- A content holds every item that was put in and not taken out again. -/
def HoldsAtLeast (c : Content) : Prop := c.Tallies fun vs ws => ws.Subperm vs

/-- After an edit a content holds at most what the edit reports. -/
theorem HoldsAtMost.of_edit (hc : c.HoldsAtMost) (h : c.edit op = .ok (v, c')) (hop : op.Proper) :
    c'.HoldsAtMost ∧
      if op.adds then c'.items.Subperm (v :: c.items) else (v :: c'.items).Subperm c.items :=
  tallies_of_edit List.Perm.subperm h hop hc

/-- After adding in bulk a content holds at most the old items and the reported ones. -/
theorem HoldsAtMost.of_extend (hc : c.HoldsAtMost) (h : c.extend raws = .ok (vs, c'))
    (hraws : ∀ raw ∈ raws, raw.Proper) : c'.HoldsAtMost ∧ c'.items.Subperm (vs ++ c.items) :=
  tallies_of_extend List.Perm.subperm h hraws hc

/-- After clearing a content holds nothing. -/
theorem HoldsAtMost.of_clear (hc : c.HoldsAtMost) (h : c.clear = .ok (vs, c')) :
    c'.HoldsAtMost ∧ c'.items = [] := by
  obtain ⟨hc', hitems⟩ := tallies_of_clear List.Perm.subperm h hc
  exact ⟨hc', List.subperm_nil.1 hitems⟩

/-- What has been cleared has no items that are registered. -/
theorem members_of_clear (h : c.clear = .ok (vs, c')) : c'.members = [] := by
  have hcustom : c'.isCustom = c.isCustom := isCustom_of_bare (sameFrame_of_clear h).1
  rw [members_eq, hcustom]
  split
  · rfl
  · next hc =>
    have hmost : c.HoldsAtMost := tallies_of_not_custom (Bool.not_eq_true _ ▸ hc)
    exact (hmost.of_clear h).2

/-- After an edit a content holds at least what the edit reports. -/
theorem HoldsAtLeast.of_edit (hc : c.HoldsAtLeast) (h : c.edit op = .ok (v, c')) (hop : op.Proper) :
    if op.adds then (v :: c.items).Subperm c'.items else c.items.Subperm (v :: c'.items) :=
  (tallies_of_edit (fun hp => hp.symm.subperm) h hop hc).2

/-- After adding in bulk a content holds at least the old items and the reported ones. -/
theorem HoldsAtLeast.of_extend (hc : c.HoldsAtLeast) (h : c.extend raws = .ok (vs, c'))
    (hraws : ∀ raw ∈ raws, raw.Proper) : (vs ++ c.items).Subperm c'.items :=
  (tallies_of_extend (fun hp => hp.symm.subperm) h hraws hc).2

end Content

/-! ## Clearing -/

/-- A base can be cleared at any time. -/
def Base.Clears (b : Base) : Prop :=
  ∀ ⦃b'⦄, b.Reaches (fun _ => True) b' → ∃ r, b'.clear = .ok r

/-- A base that can always be cleared stays so. -/
theorem Base.Clears.next {b b' : Base} {op : BaseOp} (h : b.Clears) (hn : Next b op b') :
    b'.Clears :=
  fun _ hr => h (hn.reaches trivial hr)

namespace Content

variable {c c' : Content} {op : ItemEdit} {v : Value} {raws vs : List Value}

/-- A content can be cleared at any time: a leaf, a leaf-list, or a base of that kind. -/
def Clears (c : Content) : Prop :=
  match c.core with
  | .leaf | .leafList _ => True
  | .base b => b.Clears
  | _ => False

/-- Leaf-lists can always be cleared. -/
theorem clears_of_leafList {l : LeafList} (h : c.core = .leafList l) : c.Clears := by
  rw [Clears, h]
  trivial

/-- A content that comes to a base can be cleared if the base can. -/
theorem clears_iff_of_base {b : Base} (h : c.core = .base b) : c.Clears ↔ b.Clears := by
  rw [Clears, h]

mutual

/-- What can be cleared in every state can be cleared in the present one. -/
theorem exists_clear_of_clears : ∀ {c : Content}, c.Clears → ∃ r, c.clear = .ok r
  | .leaf _, _ | .leafList _, _ => ⟨_, rfl⟩
  | .custom c, h => by
    obtain ⟨r, hr⟩ := exists_clear_of_clears_custom (c := c) h
    exact ⟨_, map_eq_ok.2 ⟨r, hr, rfl⟩⟩
  | .container, h | .list _, h => h.elim

/-- The same for a custom content, through all that wraps it. -/
theorem exists_clear_of_clears_custom : ∀ {c : Custom}, (Content.custom c).Clears →
    ∃ r, c.clear = .ok r
  | .base b, h => by
    obtain ⟨r, hr⟩ := (show b.Clears from h) .refl
    exact ⟨_, map_eq_ok.2 ⟨r, hr, rfl⟩⟩
  | .boxed c, h => by
    obtain ⟨r, hr⟩ := exists_clear_of_clears (c := c) h
    exact ⟨_, map_eq_ok.2 ⟨r, hr, rfl⟩⟩

end

/-- An edit does not keep a content from being cleared. -/
theorem Clears.of_edit (hc : c.Clears) (h : c.edit op = .ok (v, c')) : c'.Clears := by
  obtain ⟨l, l', -, -, hl'⟩ | ⟨b, b', hb, hedit, hb'⟩ := edit_cases h
  · exact clears_of_leafList hl'
  · exact (clears_iff_of_base hb').2 (((clears_iff_of_base hb).1 hc).next (.edit hedit))

/-- Nor does adding in bulk. -/
theorem Clears.of_extend (hc : c.Clears) (h : c.extend raws = .ok (vs, c')) : c'.Clears := by
  obtain ⟨l, l', -, -, hl'⟩ | ⟨b, b', hb, hextend, hb'⟩ := extend_cases h
  · exact clears_of_leafList hl'
  · exact (clears_iff_of_base hb').2 (((clears_iff_of_base hb).1 hc).next (.extend hextend))

/-- Nor does clearing. -/
theorem Clears.of_clear (hc : c.Clears) (h : c.clear = .ok (vs, c')) : c'.Clears := by
  obtain ⟨-, hleaf⟩ | ⟨l, l', -, hl', -⟩ | ⟨b, b', hb, hclear, hb'⟩ := clear_cases h
  · rw [Clears, hleaf]
    trivial
  · exact clears_of_leafList hl'
  · exact (clears_iff_of_base hb').2 (((clears_iff_of_base hb).1 hc).next (.clear hclear))

end Content

/-! ## Two bases -/

namespace Base

variable {b b' : Base}

/-- Operations only add to what a base has carried out. -/
theorem Reaches.answers {admits : BaseOp → Prop} (h : b.Reaches admits b') :
    b'.answers = b.answers := by
  induction h with
  | refl => rfl
  | tail _ hstep ih =>
    obtain ⟨op, -, hnext⟩ := hstep
    rw [← ih]
    cases hnext with
    | edit h | extend h | clear h =>
      obtain ⟨_, -, heq⟩ := map_eq_ok.1 h
      obtain ⟨-, rfl⟩ := Prod.mk.inj heq
      rfl

/-- A counter only gives out numbers, which are proper values. -/
theorem proper_counter (start : UInt64) : (counter start).Proper := by
  intro b' hr
  rw [now, hr.answers]
  constructor
  case supplied | snapshot => trivial
  case edit =>
    intro op v _ hedit
    cases op with
    | append raw =>
      cases raw with
      | uint n =>
        obtain rfl := Except.ok.inj hedit
        trivial
      | _ => cases hedit
    | _ => cases hedit
  case extend =>
    intro raws vs _ hextend
    cases hextend

/-- A counter takes numbers in and shows none of them. -/
theorem tallies_counter (start : UInt64) : (counter start).Tallies List.Subperm := by
  have hitems : ∀ {b : Base}, b.answers = (counter start).answers → b.items = [] := fun {b} hb => by
    rw [items, now, hb]
    rfl
  have hnext : ∀ {b b' : Base} {op}, b.answers = (counter start).answers → Next b op b' →
      b'.items = [] :=
    fun hb hn => hitems ((hn.reaches trivial .refl : Reaches (fun _ => True) _ _).answers.trans hb)
  constructor
  case adds =>
    intro b₁ b₂ op v hr _ _ hedit
    rw [hnext hr.answers (.edit hedit)]
    exact List.nil_subperm
  case takes =>
    intro b₁ b₂ op v hr _ htakes hedit
    obtain ⟨w, hw, -⟩ := map_eq_ok.1 hedit
    rw [now, hr.answers] at hw
    cases op with
    | append raw | insert index raw => cases htakes
    | remove raw | pop index => cases hw
  case extend =>
    intro b₁ b₂ raws vs hr _ hextend
    rw [hnext hr.answers (.extend hextend)]
    exact List.nil_subperm
  case clear =>
    intro b₁ b₂ vs hr hclear
    rw [hnext hr.answers (.clear hclear)]

/-- Nothing is ever put into a fixed value. -/
theorem tallies_fixed (R : List Value → List Value → Prop) (value : Value) :
    (fixed value).Tallies R := by
  constructor
  case adds | takes =>
    intro b₁ b₂ op v hr _ _ hedit
    obtain ⟨w, hw, -⟩ := map_eq_ok.1 hedit
    rw [now, hr.answers] at hw
    cases hw
  case extend =>
    intro b₁ b₂ raws vs hr _ hextend
    obtain ⟨w, hw, -⟩ := map_eq_ok.1 hextend
    rw [now, hr.answers] at hw
    cases hw
  case clear =>
    intro b₁ b₂ vs hr hclear
    obtain ⟨w, hw, -⟩ := map_eq_ok.1 hclear
    rw [now, hr.answers] at hw
    cases hw

end Base

/-! ## What is handed over -/

namespace Content

/-- A content as an element starts with it has no items. -/
theorem items_of_isInitial {c : Content} (h : c.IsInitial) : c.items = [] := by
  cases c with
  | leafList l => exact h
  | custom c => exact h.elim
  | _ => rfl

/-- A content without data is proper. -/
theorem proper_of_isInitial {c : Content} (h : c.IsInitial) : c.Proper := by
  cases c with
  | leafList l =>
    have hnil : l.items = [] := h
    rw [proper_iff_of_leafList rfl, hnil]
    exact fun v hv => by cases hv
  | custom c => exact h.elim
  | _ => trivial

/-- A content without data keeps its books. -/
theorem tallies_of_isInitial {c : Content} (h : c.IsInitial) : c.Tallies R := by
  refine tallies_of_not_custom ?_
  cases c with
  | custom c => exact h.elim
  | _ => rfl

/-- A content as a caller makes it for a new element: its values are proper, and if it is a list
then it has no entries yet and declares every name once. -/
structure IsFresh (c : Content) : Prop where
  proper : c.Proper
  links : c.links = []
  distinct : ∀ {l}, c = .list l → Schema.DistinctChildren l.schema.entry

/-- A content without data is fresh, if it is a list then with distinct fields. -/
theorem IsFresh.of_isInitial {c : Content} (h : c.IsInitial)
    (hd : ∀ {l}, c = .list l → Schema.DistinctChildren l.schema.entry) : c.IsFresh where
  proper := proper_of_isInitial h
  links := by
    cases c with
    | list l => exact h
    | _ => rfl
  distinct := hd

/-- Containers and leaves may be handed over as they are. -/
theorem IsFresh.container : IsFresh .container := .of_isInitial trivial fun h => by cases h

/-- An empty leaf is fresh. -/
theorem IsFresh.leaf (type : LeafType) : IsFresh (.leaf { type }) :=
  .of_isInitial rfl fun h => by cases h

end Content

end DataTree
