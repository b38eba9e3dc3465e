import DataTree.Proofs.Typing.Again

/-!
# DataTree.Proofs.LeafList.Found

Whether the items of a leaf-list can be found and removed by their value.

A value is looked for in the form that the types make of it, also where it is the form of
an item already.  So an item is found where it is, and removed from there, exactly if the
types make an equal value of it (`finds_iff`).  They do where every type keeps clear of
those behind it; otherwise an item may have entered by a type further behind and be looked
for in the form of one further in front, in which it is not there
(`not_found_by_name`).
-/

namespace DataTree

open Outcome

namespace LeafList

/-! ## Histories -/

/-- A change of the items.  The values that are handed over are proper. -/
inductive Change where
  | edit (op : ItemEdit) (proper : op.Proper)
  | set (index : Nat) (raw : Value) (proper : raw.Proper)
  | extend (raws : List Value) (proper : ∀ raw ∈ raws, raw.Proper)

/-- The leaf-list after a change; one that fails changes nothing. -/
def Change.apply (l : LeafList) : Change → LeafList
  | edit op _ => match l.edit op with
    | .ok (_, l') => l'
    | .error _ => l
  | set index raw _ => match l.set index raw with
    | .ok (_, l') => l'
    | .error _ => l
  | extend raws _ => match l.extend raws with
    | .ok (_, l') => l'
    | .error _ => l

/-- The leaf-list after changes. -/
def after (l : LeafList) (changes : List Change) : LeafList := changes.foldl Change.apply l

/-- How a leaf-list comes about: what it is made of, and what is done with it then. -/
structure History where
  type : LeafListType
  raws : List Value
  proper : ∀ raw ∈ raws, raw.Proper
  changes : List Change

/-- The leaf-list at the end of a history, which fails if the types refuse what it is made of. -/
def History.outcome (history : History) : Except Error LeafList :=
  (ofItems history.type history.raws).map (·.after history.changes)

/-- Every item is the form of some proper value. -/
def Kept (l : LeafList) : Prop :=
  ∀ item ∈ l.items, ∃ raw, raw.Proper ∧ l.type.check raw = .ok item

variable {l l' : LeafList} {raw item again : Value}

theorem kept_of_edit {op : ItemEdit} (hl : l.Kept) (hop : op.Proper)
    (h : l.edit op = .ok (item, l')) : l'.Kept := by
  intro x hx
  rw [type_of_edit h]
  have hperm := perm_of_edit h
  cases hadds : op.adds with
  | false =>
    rw [hadds] at hperm
    exact hl x (hperm.mem_iff.2 (List.mem_cons_of_mem _ hx))
  | true =>
    rw [hadds] at hperm
    obtain rfl | hx := List.mem_cons.1 (hperm.mem_iff.1 hx)
    · cases op with
      | append raw | insert index raw =>
        obtain ⟨w, hw, h⟩ := bind_eq_ok.1 h
        obtain ⟨rfl, -⟩ := Prod.mk.inj (pure_eq_ok.1 h)
        exact ⟨raw, hop, hw⟩
      | remove raw | pop index => cases hadds
    · exact hl x hx

theorem kept_of_set {index : Nat} (hl : l.Kept) (hraw : raw.Proper)
    (h : l.set index raw = .ok (item, l')) : l'.Kept ∧ l'.type = l.type := by
  unfold set at h
  split at h
  · cases h
  · obtain ⟨w, hw, h⟩ := bind_eq_ok.1 h
    obtain ⟨-, rfl⟩ := Prod.mk.inj (pure_eq_ok.1 h)
    refine ⟨fun x hx => ?_, rfl⟩
    obtain hx | rfl := List.mem_or_eq_of_mem_set hx
    · exact hl x hx
    · exact ⟨raw, hraw, hw⟩

theorem kept_of_extend {raws items : List Value} (hl : l.Kept) (hraws : ∀ raw ∈ raws, raw.Proper)
    (h : l.extend raws = .ok (items, l')) : l'.Kept := by
  intro x hx
  rw [type_of_extend h]
  obtain ⟨ws, hws, h⟩ := bind_eq_ok.1 h
  obtain ⟨rfl, rfl⟩ := Prod.mk.inj (pure_eq_ok.1 h)
  obtain hx | hx := List.mem_append.1 hx
  · exact hl x hx
  · obtain ⟨raw, hraw, hcheck⟩ := mem_of_mapM hws hx
    exact ⟨raw, hraws raw hraw, hcheck⟩

/-- A change leaves forms of proper values, of the same type. -/
theorem kept_apply (hl : l.Kept) (change : Change) :
    (change.apply l).Kept ∧ (change.apply l).type = l.type := by
  cases change with
  | edit op proper =>
    simp only [Change.apply]
    split
    · next h => exact ⟨kept_of_edit hl proper h, type_of_edit h⟩
    · exact ⟨hl, rfl⟩
  | set index raw proper =>
    simp only [Change.apply]
    split
    · next h => exact kept_of_set hl proper h
    · exact ⟨hl, rfl⟩
  | extend raws proper =>
    simp only [Change.apply]
    split
    · next h => exact ⟨kept_of_extend hl proper h, type_of_extend h⟩
    · exact ⟨hl, rfl⟩

theorem kept_after (hl : l.Kept) (changes : List Change) :
    (l.after changes).Kept ∧ (l.after changes).type = l.type := by
  induction changes generalizing l with
  | nil => exact ⟨hl, rfl⟩
  | cons change changes ih =>
    obtain ⟨hkept, htype⟩ := kept_apply hl change
    obtain ⟨hafter, htype'⟩ := ih hkept
    exact ⟨hafter, htype'.trans htype⟩

theorem kept_ofItems {type : LeafListType} {raws : List Value} (hraws : ∀ raw ∈ raws, raw.Proper)
    (h : ofItems type raws = .ok l) : l.Kept ∧ l.type = type := by
  obtain ⟨items, hitems, rfl⟩ := map_eq_ok.1 h
  refine ⟨fun x hx => ?_, rfl⟩
  obtain ⟨raw, hraw, hcheck⟩ := mem_of_mapM hitems hx
  exact ⟨raw, hraws raw hraw, hcheck⟩

/-- All items of a leaf-list, however it came about, are forms of proper values. -/
theorem kept_of_history {history : History} (h : history.outcome = .ok l) :
    l.Kept ∧ l.type = history.type := by
  obtain ⟨made, hmade, rfl⟩ := map_eq_ok.1 h
  obtain ⟨hkept, htype⟩ := kept_ofItems history.proper hmade
  obtain ⟨hafter, htype'⟩ := kept_after hkept history.changes
  exact ⟨hafter, htype'.trans htype⟩

/-! ## Finding -/

/-- An item is found at the first position that holds an equal one, and removed from
there; the others stay in order. -/
def Finds (l : LeafList) (item : Value) : Prop :=
  ∃ index found, l.items[index]? = some found ∧ found.same item = true
    ∧ (∀ earlier < index, ∀ other, l.items[earlier]? = some other → other.same item = false)
    ∧ l.indexOf? item = some index
    ∧ l.remove item = .ok (found, { l with items := l.items.eraseIdx index })

theorem Kept.proper (hl : l.Kept) (hitem : item ∈ l.items) : item.Proper := by
  obtain ⟨raw, hraw, hcheck⟩ := hl item hitem
  exact LeafListType.proper_of_check hraw hcheck

theorem probe_of_check (h : l.type.check item = .ok again) : l.probe item = again := by
  rw [probe, h]

/-- What is at the position of an item is equal to what is looked for. -/
theorem found_of_indexOf? {index : Nat} (h : l.indexOf? raw = some index) :
    ∃ found, l.items[index]? = some found ∧ found.same (l.probe raw) = true
      ∧ l.remove raw = .ok (found, { l with items := l.items.eraseIdx index }) := by
  obtain ⟨hlt, hsame, -⟩ := List.findIdx?_eq_some_iff_getElem.1 h
  have hget := List.getElem?_eq_getElem hlt
  refine ⟨_, hget, hsame, ?_⟩
  simp [remove, h, pop, hget]

/-- **An item is found exactly if the types make an equal value of it.** -/
theorem Kept.finds_iff (hl : l.Kept) (hitem : item ∈ l.items) (h : l.type.check item = .ok again) :
    l.Finds item ↔ again.same item = true := by
  have hproper := hl.proper hitem
  have hagain := LeafListType.proper_of_check hproper h
  constructor
  · rintro ⟨index, found, hget, hsame, -, hindex, -⟩
    obtain ⟨found', hget', hsame', -⟩ := found_of_indexOf? hindex
    obtain rfl := Option.some.inj (hget.symm.trans hget')
    rw [probe_of_check h] at hsame'
    have hfound := hl.proper (List.mem_of_getElem? hget)
    exact Value.same_trans (Value.same_symm hfound hagain hsame') hsame
  · intro hsame
    -- what equals the item equals the form that is looked for, and the other way round
    have hiff : ∀ other ∈ l.items, other.same again = other.same item := by
      intro other hother
      rw [Bool.eq_iff_iff]
      exact ⟨fun h => Value.same_trans h hsame,
        fun h => Value.same_trans h (Value.same_symm hagain hproper hsame)⟩
    have hany : (l.items.findIdx? fun other => other.same again).isSome = true := by
      rw [List.findIdx?_isSome, List.any_eq_true]
      exact ⟨item, hitem, (hiff item hitem).trans (Value.same_refl hproper)⟩
    obtain ⟨index, hindex⟩ := Option.isSome_iff_exists.1 hany
    have hindexOf : l.indexOf? item = some index := by rw [indexOf?, probe_of_check h, hindex]
    obtain ⟨found, hget, hfound, hremove⟩ := found_of_indexOf? hindexOf
    rw [probe_of_check h, hiff found (List.mem_of_getElem? hget)] at hfound
    refine ⟨index, found, hget, hfound, fun earlier hlt other hother => ?_, hindexOf, hremove⟩
    obtain ⟨hlt', rfl⟩ := List.getElem?_eq_some_iff.1 hother
    have hbefore := (List.findIdx?_eq_some_iff_getElem.1 hindex).2.2 earlier hlt
    rw [← hiff _ (List.getElem_mem hlt')]
    simpa using hbefore

/-- **When the items of a leaf-list can be found and removed.**  However a leaf-list came to
hold an item, its types accept the item again; it is found at the first position of an
equal one and removed from there exactly if they make an equal value of it.  Where every
type keeps clear of those behind it, this is so for all items. -/
theorem finds_of_history {history : History} (h : history.outcome = .ok l) :
    (∀ item ∈ l.items, ∃ again, history.type.check item = .ok again
      ∧ (l.Finds item ↔ again.same item = true))
    ∧ (history.type.IsClear → ∀ item ∈ l.items, l.Finds item) := by
  obtain ⟨hkept, htype⟩ := kept_of_history h
  refine ⟨fun item hitem => ?_, fun hclear item hitem => ?_⟩
  · obtain ⟨raw, -, hcheck⟩ := hkept item hitem
    obtain ⟨again, hagain⟩ := LeafListType.exists_check_again hcheck
    exact ⟨again, htype ▸ hagain, hkept.finds_iff hitem hagain⟩
  · obtain ⟨raw, -, hcheck⟩ := hkept item hitem
    have hagain := LeafListType.IsClear.check_again (by rwa [htype]) hcheck
    exact (hkept.finds_iff hitem hagain).2 (Value.same_refl (hkept.proper hitem))

/-- Numbers, and texts for what is no number: the item is found behind the one that an
extension added and a removal by its text took away. -/
theorem finds_number_behind_text :
    let history : History :=
      { type := ⟨[.int {}, .string]⟩
        raws := [.text "any", .text "+5"]
        proper := by simp [Value.Proper]
        changes :=
          [.extend [.text "5"] (by simp [Value.Proper]), .edit (.remove (.text " 5")) trivial] }
    ∃ l, history.outcome = .ok l ∧ l.type.IsClear ∧ l.items = [.text "any", .int 5]
      ∧ l.Finds (.int 5) := by
  intro history
  have hclear : LeafListType.IsClear ⟨[.int {}, .string]⟩ :=
    .cons (fun t ht => List.mem_singleton.1 ht ▸ .intText _ _) (List.pairwise_singleton _ _)
  have houtcome : history.outcome = .ok ⟨⟨[.int {}, .string]⟩, [.text "any", .int 5]⟩ := rfl
  exact ⟨_, houtcome, hclear, rfl, (finds_of_history houtcome).2 hclear _ (.tail _ (.head _))⟩

/-- Names in front of numbers: the text ` 5` is no name and enters as a number, but this
number is looked for by its name, which is not there. -/
theorem not_found_by_name :
    let l := LeafList.after ⟨⟨[.enumeration [("5", none)], .int {}]⟩, []⟩
      [.edit (.append (.text " 5")) trivial]
    l.items = [.int 5] ∧ l.indexOf? (.int 5) = none
      ∧ l.remove (.int 5) = .error (.notPresent l.type.text "5")
      ∧ ¬ l.Finds (.int 5) := by
  refine ⟨rfl, rfl, rfl, ?_⟩
  rintro ⟨index, found, -, -, -, hindex, -⟩
  cases hindex

end LeafList

end DataTree
