import DataTree.Proofs.Tracking.Raised
import DataTree.Proofs.Tracking.Tracked

/-!
# DataTree.Proofs.Tracking.Restore

Setting marks back.

Assigning the key of a new entry marks nothing but the entry, leaves in it, and what is
above the list.  If a part of the key is refused, the entry goes and the marks above the
list are set back from the list upwards.  Then every mark that is left is one that was
there before, or one of an element that has not had its turn (`Restoring`); so the tree
is tracked again, wherever that ends.
-/

namespace DataTree.Tree

open Edit Outcome

variable {t₀ t t' : Tree} {id entry x : ElementId} {e : Element} {A V : Set ElementId}
  {before rest : List (ElementId × Bool)} {s : ListSchema Schema} {p : Plan}

/-! ## The marks above an element -/

theorem marksFrom_succ_eq_ok {fuel : Nat} :
    t.marksFrom (fuel + 1) id = .ok before ↔
      ∃ e, t.element? id = some e ∧ ((e.parent = none ∧ before = [(id, e.changed)]) ∨
        ∃ q above, e.parent = some q ∧ t.marksFrom fuel q = .ok above ∧
          before = (id, e.changed) :: above) := by
  rw [marksFrom, bind_eq_ok]
  simp only [element_eq_ok_iff]
  constructor
  · intro h
    obtain ⟨e, he, h⟩ := h
    refine ⟨e, he, ?_⟩
    cases hq : e.parent with
    | none =>
      rw [hq] at h
      exact .inl ⟨rfl, (pure_eq_ok.1 h).symm⟩
    | some q =>
      rw [hq] at h
      obtain ⟨above, ha, h⟩ := bind_eq_ok.1 h
      exact .inr ⟨q, above, rfl, ha, (pure_eq_ok.1 h).symm⟩
  · intro h
    obtain ⟨e, he, h⟩ := h
    refine ⟨e, he, ?_⟩
    obtain ⟨hq, rfl⟩ | ⟨q, above, hq, ha, rfl⟩ := h
    · rw [hq]
      rfl
    · rw [hq]
      exact bind_eq_ok.2 ⟨above, ha, rfl⟩

/-- A plan marks an element, and what the plan of its parent marks. -/
theorem marks_of_parent {fuel : Nat} {active : Option Case} {q : ElementId}
    (hp : t.planFrom fuel id active = .ok p) (he : t.element? id = some e)
    (hq : e.parent = some q) :
    ∃ fuel active above, t.planFrom fuel q active = .ok above ∧ p.marks = id :: above.marks := by
  cases fuel with
  | zero => cases hp
  | succ fuel =>
    obtain ⟨e', hooks, he', -, ⟨hno, -⟩ | ⟨q', above, hq', habove, rfl⟩⟩ := planFrom_succ_eq_ok.1 hp
    · obtain rfl : e = e' := Option.some.inj (he.symm.trans he')
      rw [hq] at hno
      cases hno
    · obtain rfl : e = e' := Option.some.inj (he.symm.trans he')
      obtain rfl : q = q' := Option.some.inj (hq.symm.trans hq')
      exact ⟨fuel, _, above, habove, rfl⟩

/-- A plan marks the elements whose marks are kept. -/
theorem marks_of_planFrom {fuel fuel' : Nat} {active : Option Case}
    (hp : t.planFrom fuel id active = .ok p) (hm : t.marksFrom fuel' id = .ok before) :
    p.marks = before.map Prod.fst := by
  induction fuel generalizing fuel' id active p before with
  | zero => cases hp
  | succ fuel ih =>
    cases fuel' with
    | zero => cases hm
    | succ fuel' =>
      obtain ⟨e, hooks, he, -, hp⟩ := planFrom_succ_eq_ok.1 hp
      obtain ⟨e', he', hm⟩ := marksFrom_succ_eq_ok.1 hm
      obtain rfl : e = e' := Option.some.inj (he.symm.trans he')
      obtain ⟨hq, rfl⟩ | ⟨q, above, hq, ha, rfl⟩ := hp
      · obtain ⟨-, rfl⟩ | ⟨q, above, hq', -, -⟩ := hm
        · rfl
        · rw [hq] at hq'
          cases hq'
      · obtain ⟨hq', -⟩ | ⟨q', above', hq', ha', rfl⟩ := hm
        · rw [hq] at hq'
          cases hq'
        · obtain rfl : q = q' := Option.some.inj (hq.symm.trans hq')
          rw [List.map_cons, ih ha ha']

/-- Marks as they are in the tree, of ever older elements. -/
structure Recorded (t : Tree) (before : List (ElementId × Bool)) : Prop where
  marks : ∀ m ∈ before, ∃ e, t.element? m.1 = some e ∧ e.changed = m.2
  older : (before.map Prod.fst).Pairwise fun x y => y.index < x.index

theorem recorded_of_marksFrom
    (hlt : ∀ {id e p}, t.element? id = some e → e.parent = some p → p.index < id.index)
    {fuel : Nat} (hm : t.marksFrom fuel id = .ok before) :
    t.Recorded before ∧ ∀ x ∈ before.map Prod.fst, x.index ≤ id.index := by
  induction fuel generalizing id before with
  | zero => cases hm
  | succ fuel ih =>
    obtain ⟨e, he, ⟨-, rfl⟩ | ⟨q, above, hq, ha, rfl⟩⟩ := marksFrom_succ_eq_ok.1 hm
    · refine ⟨⟨fun m hm => ?_, List.pairwise_singleton _ _⟩, fun x hx => ?_⟩
      · obtain rfl := List.mem_singleton.1 hm
        exact ⟨e, he, rfl⟩
      · rw [List.mem_singleton.1 hx]
    · obtain ⟨hrec, hle⟩ := ih ha
      have hlt' := hlt he hq
      refine ⟨⟨fun m hm => ?_, ?_⟩, fun x hx => ?_⟩
      · obtain rfl | hm := List.mem_cons.1 hm
        · exact ⟨e, he, rfl⟩
        · exact hrec.marks m hm
      · rw [List.map_cons, List.pairwise_cons]
        exact ⟨fun x hx => Nat.lt_of_le_of_lt (hle x hx) hlt', hrec.older⟩
      · obtain rfl | hx := List.mem_cons.1 hx
        · exact Nat.le_refl _
        · exact Nat.le_of_lt (Nat.lt_of_le_of_lt (hle x hx) hlt')

/-! ## Assigning the key -/

/-- What has the entry as its parent. -/
def fieldsOf (t : Tree) (entry : ElementId) : Set ElementId :=
  { x | ∃ e, t.element? x = some e ∧ e.parent = some entry }

/-- An entry of the list `id` that has just been built, with the marks from the list up. -/
structure Arrives (t : Tree) (s : ListSchema Schema) (id entry : ElementId)
    (before : List (ElementId × Bool)) : Prop where
  element : ∃ ce, t.element? entry = some ce ∧ ce.parent = some id ∧
    ∀ field leaf, (field, leaf) ∈ ce.setters → t.KeyLeaf entry s.entry field leaf
  plain : s.PlainKeys
  marks : t.marks id = .ok before

/-- What has been built as an entry arrives, if the key leaves have no references. -/
theorem Raised.arrives {spec : ElementSpec} (h : t₀.Raised (.container s.entry .empty) spec entry t)
    (hpar : spec.parent = some id) (hplain : s.PlainKeys) (hmarks : t.marks id = .ok before) :
    t.Arrives s id entry before := by
  obtain ⟨ce, hce, hcepar, -, -, hkeys⟩ := h.element
  exact ⟨⟨ce, hce, hcepar.trans hpar, (hkeys _ _ rfl).1⟩, hplain, hmarks⟩

/-- What assigning the key of the entry may mark. -/
def reach (t : Tree) (entry : ElementId) (before : List (ElementId × Bool)) : Set ElementId :=
  { x | x = entry ∨ x ∈ before.map Prod.fst ∨ x ∈ t.fieldsOf entry }

/-- Assigning to a leaf whose type has no references gives no other leaf a value. -/
theorem touches_setLeaf_of_plain {raw : Value} (hplain : ∀ {e type}, t.element? x = some e →
      leafType e = .ok type → type.involvesReference = false)
    (hmarks : ∀ {p}, t.plan x none = .ok p → ∀ y ∈ p.marks, y ∈ A) (hx : x ∈ V) :
    Touches A V t ((setLeaf x raw).on t).2 := by
  have hstop := refl_of (Touches A V) t
  refine rel_of_ensures ?_
  rw [setLeaf, ensures_reading_bind]
  refine ⟨fun t₁ ht₁ => ?_, fun _ _ => hstop⟩
  obtain rfl : t = t₁ := Except.ok.inj ht₁
  rw [assignFrom, ensures_reading_bind]
  refine ⟨fun p hp => ?_, fun _ _ => hstop⟩
  rw [ensures_get_bind]
  refine ⟨fun e he => ?_, fun _ => hstop⟩
  rw [ensures_ofExcept_bind]
  refine ⟨fun type htype => ?_, fun _ _ => hstop⟩
  rw [constructOn_eq (hplain he htype), ensures_ofExcept_bind]
  refine ⟨fun value _ => ?_, fun _ _ => hstop⟩
  exact ((touches_runUnsets p.unsets).bind fun _ => (touches_store hx value).bind fun _ =>
    touches_markChanged (hmarks hp)).ensures t

/-- Whatever an entry has lost since, the parts of its key go to its own leaves, and these have no
references. -/
theorem Arrives.leaf (h : t₀.Arrives s id entry before) (hs : t₀.Shrinks t) {ce : Element}
    {field owner : String} {leaf : ElementId} (hce : t.element? entry = some ce)
    (hleaf : setterFor ce owner field = .ok leaf) (hfield : field ∈ s.key.fields) :
    ∃ le, t₀.element? leaf = some le ∧ le.parent = some entry ∧
      ∀ {e type}, t.element? leaf = some e → leafType e = .ok type →
        type.involvesReference = false := by
  obtain ⟨ce₀, hce₀, -, hkeys⟩ := h.element
  obtain ⟨ce₁, hce₁, hsce⟩ := hs.element hce
  obtain rfl : ce₀ = ce₁ := Option.some.inj (hce₀.symm.trans hce₁)
  have hset : (field, leaf) ∈ ce₀.setters := by
    rw [← Element.setters_of_bare hsce.bare]
    exact Assoc.mem_of_get?_eq_some (mem_setters_of_setterFor hleaf)
  obtain ⟨le, slot, default, hle, hlepar, hslot, hdecl⟩ := hkeys field leaf hset
  refine ⟨le, hle, hlepar, fun {e type} he htype => ?_⟩
  obtain ⟨le', hle', hse⟩ := hs.element he
  obtain rfl : le = le' := Option.some.inj (hle.symm.trans hle')
  obtain ⟨value, hcontent⟩ := Element.exists_leaf_of_bare hse.bare hslot
  rw [leafType, hcontent] at htype
  rw [← Except.ok.inj htype]
  exact h.plain field hfield slot.type ⟨le.case, default, hdecl⟩

/-- Assigning the key marks the entry, leaves in it and what is above the list at most; and if all
goes well the entry stays. -/
theorem Arrives.assignKey (h : t₀.Arrives s id entry before) {pairs : List (String × String)}
    (hfields : ∀ q ∈ pairs, q.1 ∈ s.key.fields) (hs : t₀.Shrinks t)
    (hentry : (t.element? entry).isSome) :
    (assignKey entry pairs).Ensures t
      (fun _ t' => Touches (t₀.reach entry before) (t₀.fieldsOf entry) t t' ∧
        (t'.element? entry).isSome)
      fun _ t' => Touches (t₀.reach entry before) (t₀.fieldsOf entry) t t' := by
  obtain ⟨ce, hce, hpar, -⟩ := h.element
  have hstop := refl_of (Touches (t₀.reach entry before) (t₀.fieldsOf entry)) t
  induction pairs generalizing t with
  | nil => exact ⟨hstop, hentry⟩
  | cons q rest ih =>
    obtain ⟨field, part⟩ := q
    rw [Tree.assignKey, ensures_get_bind]
    refine ⟨fun ce' hce' => ?_, fun _ => hstop⟩
    rw [ensures_ofExcept_bind]
    refine ⟨fun leaf hleaf => ?_, fun _ _ => hstop⟩
    obtain ⟨le, hle, hlepar, hplain⟩ := h.leaf hs hce' hleaf (hfields _ List.mem_cons_self)
    have hmarks : ∀ {p}, t.plan leaf none = .ok p → ∀ y ∈ p.marks, y ∈ t₀.reach entry before := by
      intro p hp y hy
      obtain ⟨fuel, active, above, habove, hmarks⟩ := marks_of_parent (hs.planFrom hp) hle hlepar
      obtain ⟨fuel', active', above', habove', hmarks'⟩ := marks_of_parent habove hce hpar
      rw [hmarks, hmarks', marks_of_planFrom habove' h.marks] at hy
      obtain rfl | hy := List.mem_cons.1 hy
      · exact .inr (.inr ⟨le, hle, hlepar⟩)
      · obtain rfl | hy := List.mem_cons.1 hy
        · exact .inl rfl
        · exact .inr (.inl hy)
    have hset' : Touches (t₀.reach entry before) (t₀.fieldsOf entry) t
        ((setLeaf leaf (.text part)).on t).2 :=
      touches_setLeaf_of_plain hplain hmarks ⟨le, hle, hlepar⟩
    have hstep := ((ensures_of_rel hset').and ((shrinks_setLeaf leaf (.text part)).ensures t)).and
      (isSome_of_setLeaf leaf (.text part) t)
    rw [ensures_bind]
    refine hstep.mono (fun _ t₁ h₁ => ?_) fun _ t₁ h₁ => h₁.1.1
    obtain ⟨⟨ht₁, hs₁⟩, fuel, p, hp, hlive⟩ := h₁
    -- Marking went up to the entry, so this is still there.
    have hentry₁ : (t₁.element? entry).isSome := by
      obtain ⟨le', hle'⟩ := exists_of_planFrom hp
      obtain ⟨le₀, hle₀, hse⟩ := hs.element hle'
      obtain rfl : le = le₀ := Option.some.inj (hle.symm.trans hle₀)
      have hq : le'.parent = some entry := (Element.parent_of_bare hse.bare).trans hlepar
      exact hlive entry (mem_marks_of_parent hp (mem_marks_of_planFrom hp) hle' hq)
    refine (ih (fun q hq => hfields q (List.mem_cons_of_mem _ hq)) (trans_of Shrinks hs hs₁) hentry₁
      (refl_of (Touches _ _) t₁)).mono (fun _ t₂ h₂ => ⟨trans_of (Touches _ _) ht₁ h₂.1, h₂.2⟩)
      fun _ t₂ h₂ => trans_of (Touches _ _) ht₁ h₂

/-! ## Setting marks back -/

/-- The marks of `rest` are still to be set back; all others are as in `t₀`, but for those of fields
of the entry, and that is gone. -/
structure Restoring (t₀ : Tree) (entry : ElementId) (rest : List (ElementId × Bool))
    (t : Tree) : Prop where
  touches : Touches ({ x | x ∈ rest.map Prod.fst } ∪ t₀.fieldsOf entry) (t₀.fieldsOf entry) t₀ t
  size : t.slots.size = t₀.slots.size
  gone : t.element? entry = none
  above : ∀ {x e q qe}, x ∈ rest.map Prod.fst → t.element? x = some e → e.changed = true →
    e.parent = some q → t.element? q = some qe → qe.changed = true
  assigned : ∀ {x e}, t.element? x = some e → e.content.assigned = true → e.changed = true

/-- Wherever restoring stops, marks go all the way up. -/
theorem Restoring.tracked (h : t₀.Restoring entry rest t) (h₀ : t₀.Tracked none) :
    t.Tracked none where
  above := fun {x e q qe} he hc hq hqe => by
    obtain ⟨e₀, he₀, hpar, -, hmark, -⟩ := h.touches.element (h.size ▸ index_lt_of_element? he) he
    obtain ⟨q₀, hq₀, -, hkeep, -⟩ := h.touches.element (h.size ▸ index_lt_of_element? hqe) hqe
    obtain hc₀ | hrest | ⟨e₁, he₁, hpar₁⟩ := hmark hc
    · exact .inl (hkeep ((h₀.above he₀ hc₀ (hpar ▸ hq) hq₀).resolve_right (by simp)))
    · exact .inl (h.above hrest he hc hq hqe)
    · -- The parent of a field is the entry.
      obtain rfl : e₀ = e₁ := Option.some.inj (he₀.symm.trans he₁)
      obtain rfl : entry = q := Option.some.inj (hpar₁.symm.trans (hpar.symm.trans hq))
      rw [h.gone] at hqe
      cases hqe
  assigned := fun he hv => .inl (h.assigned he hv)

/-- One mark is set back. -/
theorem Restoring.step {m : ElementId × Bool} (h : t₀.Restoring entry (m :: rest) t)
    (hl : t₀.Linked)
    (h₀ : t₀.Tracked none) (hrec : t₀.Recorded (m :: rest)) (hlt : m.1.index < entry.index) :
    t₀.Restoring entry rest (t.modifyElement m.1 fun e => { e with changed := m.2 }) := by
  obtain ⟨e₀, he₀, hm⟩ := hrec.marks m List.mem_cons_self
  have holder : ∀ x ∈ rest.map Prod.fst, x.index < m.1.index := by
    have hp := hrec.older
    rw [List.map_cons, List.pairwise_cons] at hp
    exact hp.1
  have hback : ∀ {y ye}, (t.modifyElement m.1 fun e =>
    { e with changed := m.2 }).element? y = some ye →
      ∃ e, t.element? y = some e ∧ ye.parent = e.parent ∧ ye.content = e.content ∧
        (y = m.1 → ye.changed = e₀.changed) ∧ (y ≠ m.1 → ye.changed = e.changed) := by
    intro y ye hy
    obtain ⟨e, he, ⟨hym, rfl⟩ | ⟨hym, rfl⟩⟩ := modifyElement_cases hy
    · exact ⟨e, he, rfl, rfl, fun _ => hm.symm, fun hne => absurd hym hne⟩
    · exact ⟨ye, he, rfl, rfl, fun heq => absurd heq hym, fun _ => rfl⟩
  -- The element that gets its mark back is older than the entry, and so is no field of it.
  have hfield : m.1 ∉ t₀.fieldsOf entry := by
    intro hfield
    obtain ⟨e₁, he₁, hpar⟩ := hfield
    exact absurd (Nat.lt_trans hlt (hl.parent_lt he₁ hpar)) (Nat.lt_irrefl _)
  constructor
  case size => rw [size_slots_modifyElement, h.size]
  case gone =>
    rw [element?_modifyElement, h.gone]
    split <;> rfl
  case touches =>
    refine ⟨by rw [size_slots_modifyElement, h.size], fun {y ye} hlt hy => ?_⟩
    obtain ⟨e, he, hpar, hcontent, hself, hother⟩ := hback hy
    obtain ⟨e₁, he₁, hpar₁, hkeep, hmark, hval⟩ := h.touches.element hlt he
    refine ⟨e₁, he₁, hpar.trans hpar₁, ?_⟩
    rw [hcontent]
    by_cases hym : y = m.1
    · obtain rfl : e₀ = e₁ := Option.some.inj (he₀.symm.trans (hym ▸ he₁))
      rw [hself hym]
      exact ⟨fun hc => hc, .inl, hval⟩
    · rw [hother hym]
      refine ⟨hkeep, fun hc => (hmark hc).imp_right fun hin => ?_, hval⟩
      obtain hin | hin := hin
      · obtain hin | hin := List.mem_cons.1 hin
        · exact absurd hin hym
        · exact .inl hin
      · exact .inr hin
  case above =>
    intro x e q qe hx he hc hq hqe
    obtain ⟨e₁, he₁, hpar, -, -, hother⟩ := hback he
    obtain ⟨q₁, hq₁, -, -, -, hqother⟩ := hback hqe
    have hxm : x ≠ m.1 := by
      rintro rfl
      exact Nat.lt_irrefl _ (holder _ hx)
    have hqm : q ≠ m.1 := by
      rintro rfl
      obtain ⟨e₂, he₂, hpar₂, -⟩ := h.touches.element (h.size ▸ index_lt_of_element? he₁) he₁
      have hlt' := hl.parent_lt he₂ (hpar₂.symm.trans (hpar.symm.trans hq))
      exact absurd (Nat.lt_trans hlt' (holder _ hx)) (Nat.lt_irrefl _)
    rw [hqother hqm]
    exact h.above (List.mem_cons_of_mem _ hx) he₁ (hother hxm ▸ hc) (hpar ▸ hq) hq₁
  case assigned =>
    intro x e he hv
    obtain ⟨e₁, he₁, -, hcontent, hself, hother⟩ := hback he
    rw [hcontent] at hv
    by_cases hxm : x = m.1
    · obtain ⟨e₂, he₂, -, -, -, hval⟩ := h.touches.element (h.size ▸ index_lt_of_element? he₁) he₁
      obtain rfl : e₀ = e₂ := Option.some.inj (he₀.symm.trans (hxm ▸ he₂))
      rw [hself hxm]
      exact (h₀.assigned he₂ ((hval hv).resolve_right (hxm ▸ hfield))).resolve_right (by simp)
    · rw [hother hxm]
      exact h.assigned he₁ hv

/-- Setting back the marks from a list up. -/
theorem Restoring.restoreMarks (h : t₀.Restoring entry before t) (hl : t₀.Linked)
    (h₀ : t₀.Tracked none) (hrec : t₀.Recorded before)
    (hlt : ∀ x ∈ before.map Prod.fst, x.index < entry.index) :
    (restoreMarks before).Ensures t (fun _ t' => ∃ rest, t₀.Restoring entry rest t')
      fun _ t' => ∃ rest, t₀.Restoring entry rest t' := by
  have hstep : ∀ m rest t, (t₀.Restoring entry (m :: rest) t ∧ t₀.Recorded (m :: rest) ∧
      ∀ x ∈ (m :: rest).map Prod.fst, x.index < entry.index) →
      (update m.1 fun e => { e with changed := m.2 }).Ensures t
        (fun _ t' => t₀.Restoring entry rest t' ∧ t₀.Recorded rest ∧
          ∀ x ∈ rest.map Prod.fst, x.index < entry.index)
        fun _ t' => ∃ rest, t₀.Restoring entry rest t' := by
    intro m rest t ht
    obtain ⟨ht, hrec, hlt⟩ := ht
    refine ensures_update.2 ⟨fun _ _ => ⟨?_, ?_, ?_⟩, fun _ => ⟨_, ht⟩⟩
    · exact ht.step hl h₀ hrec (hlt m.1 List.mem_cons_self)
    · exact ⟨fun q hq => hrec.marks q (List.mem_cons_of_mem _ hq),
        (List.pairwise_cons.1 hrec.older).2⟩
    · exact fun x hx => hlt x (List.mem_cons_of_mem _ hx)
  exact (ensures_forM (I := fun rest t => t₀.Restoring entry rest t ∧ t₀.Recorded rest ∧
    ∀ x ∈ rest.map Prod.fst, x.index < entry.index) hstep ⟨h, hrec, hlt⟩).mono
    (fun _ _ hd => ⟨_, hd.1⟩) fun _ _ hf => hf

end DataTree.Tree
