import DataTree.Proofs.Rollback.Entry

/-!
# DataTree.Proofs.Rollback.Key

What the key of a new entry costs.

Assigning a part of the key runs the plan of the key leaf, and so unsets what has to make
way for the list.  That is not made good if a later part is refused.  The plan of a key leaf
unsets within the entry, and unsets what the plan of the list does, made on behalf of the
case of the leaf (`Begun.unsets_of_keyLeaf`).  So which data it may be can be told
before the entry is added (`AddingCosts`); and where no data is lost, a failed add leaves all
elements and marks as they were (`Fails.conserves`).
-/

namespace DataTree.Tree

open Edit Outcome

variable {t t₀ t₁ t₂ t' : Tree} {id entry x y : ElementId} {e ce : Element} {l : KeyedList}
  {path field owner : String} {n fuel fuel' : Nat} {p : Plan} {safe : Prop} {active : Option Case}
  {before : List (ElementId × Bool)} {pairs : List (String × String)} {pending : Set ElementId}
  {hooks : List Unset}

/-! ## Cost -/

/-- Filling `id`, or something in it on behalf of a case, unsets data. -/
def Costs (t : Tree) (id : ElementId) (active : Option Case) : Prop :=
  ∃ p y, t.plan id active = .ok p ∧ t.Laden y ∧ ¬ t.Free p.unsets y

/-- Adding an entry to the list `id` unsets data, be it for the list or for one of the key
leaves. -/
def AddingCosts (t : Tree) (id : ElementId) (s : ListSchema Schema) : Prop :=
  t.Costs id none ∨ ∃ field ∈ s.key.fields, ∃ case type default,
    ⟨field, case, .leaf type default⟩ ∈ s.entry ∧ t.Costs id case

/-! ## Losing data -/

/-- Nothing old has got data, and old elements are alike if `safe` says so, or else if all that had
data has it still. -/
structure Sheds (n : Nat) (safe : Prop) (t t' : Tree) : Prop where
  back : ∀ ⦃y : ElementId⦄, y.index < n → t'.Laden y → t.Laden y
  alike : (safe ∨ ∀ ⦃y : ElementId⦄, y.index < n → t.Laden y → t'.Laden y) → Alike n t t'

theorem Alike.sheds (h : Alike n t t') : Sheds n safe t t' :=
  ⟨fun _ hy => (h.laden_iff hy).1, fun _ => h⟩

/-- Filling a new element unsets data if `safe` does not forbid it. -/
theorem Sheds.put (h : Sheds n safe t₀ t) (hput : Put x hooks pending t t') (hs : Sound t pending)
    (hd : t.Declared) (hret : t.Retains t') (hx : n ≤ x.index)
    (hsafe : safe → Alike n t₀ t → ∀ ⦃y : ElementId⦄, y.index < n → t.Laden y → t.Free hooks y) :
    Sheds n safe t₀ t' := by
  have hladen : ∀ ⦃y : ElementId⦄, y.index < n →
      (t'.Laden y ↔ t.Laden y ∧ t.Free hooks y) := fun y hy =>
    hput.laden_iff (by rintro rfl; omega)
  refine ⟨fun y hy hl => h.back hy ((hladen hy).1 hl).1, fun hcase => ?_⟩
  have halike : Alike n t₀ t :=
    h.alike (hcase.imp_right fun hkeep y hy hl => ((hladen hy).1 (hkeep hy hl)).1)
  refine trans_of (Alike n) halike (hput.alike hs hd hret hx fun y hy hl => ?_)
  obtain hyes | hkeep := hcase
  · exact hsafe hyes halike hy hl
  · exact ((hladen hy).1 (hkeep hy (h.back hy hl))).2

/-- Nothing before slot `n` is marked anew but from `id` up. -/
def MarksUp (t : Tree) (id : ElementId) (t' : Tree) : Prop :=
  ∀ ⦃x e'⦄, ¬ t.Under x id → x.index < t.slots.size → t'.element? x = some e' →
    t'.isMarked x = t.isMarked x

/-- What there was is there, and what had data has it still. -/
structure Lossless (t t' : Tree) : Prop where
  isSome : ∀ {x}, (t.element? x).isSome → (t'.element? x).isSome
  laden : ∀ {x}, t.Laden x → t'.Laden x

theorem Unscathed.lossless (h : t.Unscathed t') : t.Lossless t' where
  isSome := fun {x} hx => by rwa [h.element x]
  laden := fun {x} hl => (laden_of_held (held_congr (h.element x))).2 hl

/-! ## Plans -/

/-- How far a plan may climb does not matter if it is far enough. -/
theorem planFrom_unique {p' : Plan} (h : t.planFrom fuel x active = .ok p)
    (h' : t.planFrom fuel' x active = .ok p') : p = p' := by
  induction fuel generalizing fuel' x active p p' with
  | zero => cases h
  | succ fuel ih =>
    cases fuel' with
    | zero => cases h'
    | succ fuel' =>
      obtain ⟨e, hooks, he, hh, hrest⟩ := planFrom_succ_eq_ok.1 h
      obtain ⟨e', hooks', he', hh', hrest'⟩ := planFrom_succ_eq_ok.1 h'
      obtain rfl : e = e' := Option.some.inj (he.symm.trans he')
      obtain rfl : hooks = hooks' := Except.ok.inj (hh.symm.trans hh')
      obtain ⟨hroot, rfl⟩ | ⟨q, above, hq, ha, rfl⟩ := hrest
      · obtain ⟨-, rfl⟩ | ⟨q, above, hq, -, -⟩ := hrest'
        · rfl
        · rw [hroot] at hq
          cases hq
      · obtain ⟨hroot, -⟩ | ⟨q', above', hq', ha', rfl⟩ := hrest'
        · rw [hroot] at hq
          cases hq
        · obtain rfl : q = q' := Option.some.inj (hq.symm.trans hq')
          rw [ih ha ha']

/-- The part of a plan that is made from the parent up, and the hooks of the element itself. -/
theorem unsets_of_planFrom_parent {q : ElementId} (hp : t.planFrom fuel x active = .ok p)
    (he : t.element? x = some e) (hpar : e.parent = some q) :
    ∃ fuel' above hooks, t.planFrom fuel' q (active.orElse fun _ => e.case) = .ok above ∧
      siblingHooks e active = .ok hooks ∧ p.unsets = hooks ++ above.unsets := by
  cases fuel with
  | zero => cases hp
  | succ fuel =>
    obtain ⟨e', hooks, he', hh, ⟨hroot, -⟩ | ⟨q', above, hq', ha, rfl⟩⟩ := planFrom_succ_eq_ok.1 hp
    · obtain rfl : e = e' := Option.some.inj (he.symm.trans he')
      rw [hpar] at hroot
      cases hroot
    · obtain rfl : e = e' := Option.some.inj (he.symm.trans he')
      obtain rfl : q = q' := Option.some.inj (hpar.symm.trans hq')
      exact ⟨fuel, above, hooks, ha, hh, rfl⟩

/-! ## The plans of key leaves -/

namespace Begun

/-- What is assigned to for a field of the entry is a leaf of the entry, which is new. -/
theorem keyLeaf_of_setter (h : t₀.Begun id e l path entry before t₁) (hret : t₁.Retains t)
    (hce : t.element? entry = some ce) (hleaf : setterFor ce owner field = .ok x) :
    t₁.KeyLeaf entry l.schema.entry field x := by
  obtain ⟨ce₁, hce₁, -, -, -, hkeys⟩ := h.raised.element
  obtain ⟨ce', hce', hb, -⟩ := hret hce
  obtain rfl : ce₁ = ce' := Option.some.inj (hce₁.symm.trans hce')
  refine (hkeys _ _ rfl).1 field x ?_
  rw [← Element.setters_of_bare hb]
  exact Assoc.mem_of_get?_eq_some (mem_setters_of_setterFor hleaf)

/-- The plan of a key leaf unsets within the entry, and what the plan of the list unsets on behalf
of the case of the leaf. -/
theorem unsets_of_keyLeaf (h : t₀.Begun id e l path entry before t₁) (hs : Sound t pending)
    (hret : t₁.Retains t) (hce : t.element? entry = some ce)
    (hleaf : setterFor ce owner field = .ok x) (hp : t.plan x none = .ok p) :
    ∃ case type default fuel above, ⟨field, case, .leaf type default⟩ ∈ l.schema.entry ∧
      t.planFrom fuel id case = .ok above ∧ ∀ b, .contents b ∈ p.unsets →
        .contents b ∈ above.unsets ∨ ∀ {y}, t.Laden y → t.Under b y → entry.index ≤ y.index := by
  obtain ⟨le₁, slot, default, hle₁, hlepar, hslot, hdecl⟩ := h.keyLeaf_of_setter hret hce hleaf
  obtain ⟨ce₁, hce₁, hcepar, hcase, -⟩ := h.raised.element
  obtain ⟨ce', hce', hb, -⟩ := hret hce
  obtain rfl : ce₁ = ce' := Option.some.inj (hce₁.symm.trans hce')
  obtain ⟨le, hle⟩ := exists_of_planFrom hp
  obtain ⟨le', hle', hlb, -⟩ := hret hle
  obtain rfl : le₁ = le' := Option.some.inj (hle₁.symm.trans hle')
  obtain ⟨fuel, inner, hooks, hinner, hh, hunsets⟩ := unsets_of_planFrom_parent hp hle
    ((Element.parent_of_bare hlb).trans hlepar)
  obtain rfl := Except.ok.inj hh
  obtain ⟨fuel', above, hooks', habove, hh', hunsets'⟩ := unsets_of_planFrom_parent hinner hce
    ((Element.parent_of_bare hb).trans hcepar)
  have hnone : ce.case = none := (Element.case_of_bare hb).trans hcase
  have hactive : ((none.orElse fun _ => le.case).orElse fun _ => ce.case) = le₁.case := by
    rw [hnone, Element.case_of_bare hlb]
    cases le₁.case <;> rfl
  rw [hactive] at habove
  refine ⟨le₁.case, slot.type, default, fuel', above, hdecl, habove, fun b hm => ?_⟩
  rw [hunsets, hunsets', List.nil_append] at hm
  obtain hm | hm := List.mem_append.1 hm
  · refine .inr fun {y} hl hu => ?_
    obtain ⟨field', hget⟩ := mem_unsetters_of_siblingHooks hh' hm
    obtain ⟨c, hc, hfield⟩ := hs.unsetter hce (Assoc.mem_of_get?_eq_some hget)
    obtain rfl := Unset.contents.inj hc
    -- Where nothing is, nothing is under it.
    obtain ⟨be, hbe⟩ : ∃ be, t.element? b = some be := by
      obtain rfl | ⟨z, ⟨be, hbe, -⟩, -⟩ := Relation.ReflTransGen.cases_head_iff.1 hu
      · obtain ⟨be, hbe, -⟩ := hl
        exact ⟨be, hbe⟩
      · exact ⟨be, hbe⟩
    have hlt := hs.parent_lt hbe (hfield.2 be hbe).1
    have hle := hs.index_le_of_under hu
    omega
  · exact .inl hm

/-- If adding costs nothing, the plan of a key leaf leaves all old data. -/
theorem free_of_keyLeaf (h : t₀.Begun id e l path entry before t₁) (hs₀ : Sound t₀ ∅)
    (hh : t₀.Hooked) (hs : Sound t {entry}) (hret : t₁.Retains t)
    (halike : Alike t₀.slots.size t₀ t) (hfree : ¬ t₀.AddingCosts id l.schema)
    (hfield : field ∈ l.schema.key.fields) (hce : t.element? entry = some ce)
    (hleaf : setterFor ce owner field = .ok x) (hp : t.plan x none = .ok p)
    (hy : y.index < t₀.slots.size) (hl : t.Laden y) : t.Free p.unsets y := by
  intro b hm hu
  have hid := index_lt_of_element? h.owner
  obtain ⟨case, type, default, fuel, above, hdecl, habove, hall⟩ :=
    h.unsets_of_keyLeaf hs hret hce hleaf hp
  obtain hm | hnew := hall b hm
  · obtain ⟨p₀, hp₀⟩ := exists_planFrom hs₀ hh (fun hy => hy.elim) h.owner (Nat.lt_succ_self _) case
    obtain ⟨e', he', -⟩ := halike.element hid h.owner
    have hlater : ∀ y ∈ ({entry} : Set ElementId), id.index < y.index := fun y hy => by
      rw [Set.mem_singleton_iff.1 hy, h.index_eq]
      exact hid
    have hp' := planFrom_of_bare hs (halike.bareTo hid) (by rw [he']; rfl) hlater hp₀
    obtain rfl := planFrom_unique habove hp'
    refine hfree (.inr ⟨field, hfield, case, type, default, hdecl, _, y, hp₀,
      (halike.laden_iff hy).1 hl, ?_⟩)
    exact fun hno => hno b hm ((halike.bareTo hy).under hs₀ hs hu)
  · have hle := hnew hl hu
    rw [h.index_eq] at hle
    omega

/-- Assigning the key loses data or leaves old elements alike. -/
theorem sheds_assignKey (h : t₀.Begun id e l path entry before t₁) (hs₀ : Sound t₀ ∅)
    (hh : t₀.Hooked) (hplain : l.schema.PlainKeys) (hsafe : safe → ¬ t₀.AddingCosts id l.schema)
    (hfields : ∀ q ∈ pairs, q.1 ∈ l.schema.key.fields) (hs : Sound t {entry}) (hd : t.Declared)
    (hret : t₁.Retains t) (hshrinks : t₁.Shrinks t) (hsheds : Sheds t₀.slots.size safe t₀ t) :
    (assignKey entry pairs).Ensures t (fun _ => Sheds t₀.slots.size safe t₀)
      fun _ => Sheds t₀.slots.size safe t₀ := by
  induction pairs generalizing t with
  | nil => exact hsheds
  | cons q rest ih =>
    obtain ⟨field, part⟩ := q
    have hfield := hfields _ List.mem_cons_self
    rw [assignKey, ensures_get_bind]
    refine ⟨fun ce hce => ?_, fun _ => hsheds⟩
    rw [ensures_ofExcept_bind]
    refine ⟨fun x hleaf => ?_, fun _ _ => hsheds⟩
    have harrives := h.raised.arrives rfl hplain h.marks
    obtain ⟨le, hle, hlepar, hplainLeaf⟩ := harrives.leaf hshrinks hce hleaf hfield
    have hx : t₀.slots.size ≤ x.index := by
      have hlt := h.entering.sound.parent_lt hle hlepar
      rw [← h.index_eq]
      omega
    have hput : ∀ {hooks t'}, Put x hooks {entry} t t' → t.Retains t' →
        (∀ hook ∈ hooks, ∃ p, t.plan x none = .ok p ∧ hook ∈ p.unsets) →
        Sheds t₀.slots.size safe t₀ t' := by
      intro hooks t' hput hret' hhooks
      refine hsheds.put hput hs hd hret' hx fun hyes halike y hy hl c hm hu => ?_
      obtain ⟨p, hp, hmem⟩ := hhooks _ hm
      exact h.free_of_keyLeaf hs₀ hh hs hret halike (hsafe hyes) hfield hce hleaf hp hy hl c hmem hu
    have hkeeps := ((frameStable_retains t {entry}).assignStable.setLeaf x (.text part)).keeps
      ⟨hs, hd, refl_of Retains t⟩
    have hset := ((put_setLeaf hs hd (.text part) hplainLeaf).and hkeeps).and
      ((shrinks_setLeaf x (.text part)).ensures t)
    refine (hset.mono (fun _ _ hd => hd) fun _ t' hf => ?_).bind fun _ t₂ h₂ => ?_
    · obtain ⟨⟨⟨hooks, hput', hhooks⟩, -, -, hret'⟩, -⟩ := hf
      exact hput hput' hret' hhooks
    · obtain ⟨⟨⟨p, slot, value, hp, -, -, hput', -⟩, hs₂, hd₂, hret₂⟩, hshrinks₂⟩ := h₂
      exact ih (fun q hq => hfields q (List.mem_cons_of_mem _ hq)) hs₂ hd₂
        (trans_of Retains hret hret₂)
        (trans_of Shrinks hshrinks hshrinks₂) (hput hput' hret₂ fun hook hm => ⟨p, hp, hm⟩)

/-- Assigning the key marks nothing old but from the list up. -/
theorem marked_assignKey (h : t₀.Begun id e l path entry before t₁) (hplain : l.schema.PlainKeys)
    (hfields : ∀ q ∈ pairs, q.1 ∈ l.schema.key.fields) :
    (assignKey entry pairs).Ensures t₁ (fun _ => t₀.MarksUp id) fun _ => t₀.MarksUp id := by
  have hall : ∀ {t'}, Touches (t₁.reach entry before) (t₁.fieldsOf entry) t₁ t' →
      t₀.MarksUp id t' := by
    intro t' htouches x e' hu hx he'
    have hlt : x.index < t₁.slots.size := Nat.lt_trans hx h.entering.size_lt
    obtain ⟨e₁, he₁, -, hkeep, hmark, -⟩ := htouches.element hlt he'
    have hno : x ∉ t₁.reach entry before := by
      rintro (rfl | hmem | ⟨fe, hfe, hpar⟩)
      · rw [h.index_eq] at hx
        exact Nat.lt_irrefl _ hx
      · exact hu (h.under_of_mem hmem)
      · have hparent := h.entering.sound.parent_lt hfe hpar
        rw [h.index_eq] at hparent
        omega
    rw [isMarked_eq he', isMarked_eq (h.entering.older hx ▸ he₁), Bool.eq_iff_iff]
    exact ⟨fun hc => (hmark hc).resolve_right hno, hkeep⟩
  have harrives := h.raised.arrives rfl hplain h.marks
  obtain ⟨ce, hce, -⟩ := harrives.element
  exact (harrives.assignKey hfields (refl_of Shrinks t₁) (by rw [hce]; rfl)).mono
    (fun _ _ hd => hall hd.1) fun _ _ hf => hall hf

end Begun

/-! ## What a failed add loses -/

/-- If the plan of the list takes away what it has to mark, then something above the list is unset,
which had data before. -/
theorem Alike.costs {key : String} {k : ElementId} (h : Alike t.slots.size t t₂) (hs : Sound t ∅)
    (hs₃ : Sound (t₂.enlisted id l key entry) ∅) (he : t.element? id = some e)
    (hp : t.plan id none = .ok p) (hx : x ∈ p.marks)
    (hk : ¬ (t₂.enlisted id l key entry).Free p.unsets k)
    (hl : (t₂.enlisted id l key entry).Laden k) (hu : (t₂.enlisted id l key entry).Under k x)
    (hne : x ≠ k) : t.Costs id none := by
  have hxid := hs.index_le_of_under (under_of_mem_marks hs hp hx)
  have hkx := hs₃.index_le_of_under hu
  have hkid : k ≠ id := by
    rintro rfl
    exact hne (congrArg ElementId.mk (Nat.le_antisymm hxid hkx))
  have hlt : k.index < t.slots.size :=
    Nat.lt_of_le_of_lt (Nat.le_trans hkx hxid) (index_lt_of_element? he)
  have hl₂ : t₂.Laden k := by
    refine (laden_of_held (held_congr ?_)).1 hl
    rw [element?_enlisted, element?_modifyElement_of_ne hkid]
  refine ⟨p, k, hp, (h.laden_iff hlt).1 hl₂, fun hfree => hk fun c hm hu' => ?_⟩
  have hbare := (h.bareTo hlt).trans ((retains_enlisted t₂ id l key entry).thins.bareTo k)
  exact hfree c hm (hbare.under hs hs₃ hu')

/-- If all data is still there, or adding costs nothing, then a failed add leaves data and marks as
they were. -/
theorem Fails.conserves
    (h : t.Fails (fun t' => Sheds t.slots.size safe t t' ∧ t.MarksUp id t') id t') (hs : Sound t ∅)
    (hfresh : ¬ t.Stale id)
    (hsafe : safe → ∀ l, t.held id = some (.list l) → ¬ t.AddingCosts id l.schema)
    (hcase : safe ∨ t.Lossless t') : t.Conserves id t' := by
  have hold : ∀ {x}, (t.element? x).isSome → x.index < t.slots.size := fun hx => by
    obtain ⟨e, he⟩ := Option.isSome_iff_exists.1 hx
    exact index_lt_of_element? he
  cases h with
  | stopped h => exact h.conserves id
  | @refused e l path entry before t₁ t₂ h hA hret hback hacc hsaves =>
    obtain ⟨hsheds, hmarks⟩ := hA
    have hsize := h.index_eq
    have halike : Alike t.slots.size t t₂ := hsheds.alike (hcase.imp_right fun hless y hy hl =>
      (laden_of_held (hback.held (hsize.symm ▸ hy))).1 (hless.laden hl))
    refine ⟨fun hx => ?_, fun {x} hx hu => ?_⟩
    · rw [hback.held (hsize.symm ▸ hold hx), halike.held (hold hx)]
    · have hno : x ∉ before.map Prod.fst := fun hmem => hu (h.under_of_mem hmem)
      obtain ⟨xe, hxe⟩ := Option.isSome_iff_exists.1 hx
      obtain ⟨xe₂, hxe₂, -⟩ := halike.element (hold hx) hxe
      rw [isMarked, hback.unmarked (hsize.symm ▸ hold hx) hno]
      exact hmarks hu (hold hx) hxe₂
  | lost h hA hnone =>
    have halike := hA.1.alike (hcase.imp_right fun hless y _ hl => hless.laden hl)
    obtain ⟨e', he', -⟩ := halike.element (index_lt_of_element? h.owner) h.owner
    rw [hnone] at he'
    cases he'
  | @stuck e l path key entry before t₁ t₂ p h hA hret hp hs₃ hshrinks hstuck =>
    exfalso
    have hkept : ∀ {x}, (t.element? x).isSome →
        ((t₂.enlisted id l key entry).element? x).isSome := by
      intro x hx
      obtain hyes | hless := hcase
      · obtain ⟨xe, hxe⟩ := Option.isSome_iff_exists.1 hx
        obtain ⟨xe₂, hxe₂, -⟩ := (hA.1.alike (.inl hyes)).element (hold hx) hxe
        rw [element?_enlisted, isSome_element?_modifyElement, hxe₂]
        rfl
      · obtain ⟨xe', hxe'⟩ := Option.isSome_iff_exists.1 (hless.isSome hx)
        obtain ⟨xe, hxe, -⟩ := hshrinks.element hxe'
        rw [hxe]
        rfl
    obtain ⟨b, hm, hnone⟩ | ⟨x, hx, hnone, hlost⟩ := hstuck
    · have hsome := hkept (Option.isSome_iff_ne_none.2 fun hb => hfresh ⟨p, b, hp, hm, hb⟩)
      rw [hnone] at hsome
      cases hsome
    · obtain ⟨xe, hxe⟩ := exists_of_mem_marks hp hx
      have hsome : (t.element? x).isSome := by
        rw [hxe]
        rfl
      obtain hyes | hless := hcase
      · have hheld : t.held id = some (.list l) := held_eq_some_iff.2 ⟨e, h.owner, h.list⟩
        obtain ⟨k, hk, hl, hu, hne⟩ := hlost (hkept hsome)
        exact hsafe hyes l hheld
          (.inl ((hA.1.alike (.inl hyes)).costs hs hs₃ h.owner hp hx hk hl hu hne))
      · have hsome' := hless.isSome hsome
        rw [hnone] at hsome'
        cases hsome'

end DataTree.Tree
