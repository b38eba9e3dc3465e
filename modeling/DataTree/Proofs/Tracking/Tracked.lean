import DataTree.Proofs.Tracking.Touches

/-!
# DataTree.Proofs.Tracking.Tracked

Marks go all the way up.

In a tracked tree whatever is above a marked element is marked, and every leaf with a
value is marked.  While a plan is carried out one element is still owed its mark: the
leaf that has just got a value, and then the parent of the one that was marked last.  If
marking stops, then because that element is gone, and so nothing is owed.
-/

namespace DataTree.Tree

open Edit Outcome

variable {t t' : Tree} {id x : ElementId} {e : Element} {owed : Option ElementId} {p : Plan}

/-! ## The invariant -/

/-- Marks go all the way up, and leaves with a value are marked, but for the element that is owed
its mark. -/
structure Tracked (t : Tree) (owed : Option ElementId) : Prop where
  above : ∀ {x e q qe}, t.element? x = some e → e.changed = true → e.parent = some q →
    t.element? q = some qe → qe.changed = true ∨ owed = some q
  assigned : ∀ {x e}, t.element? x = some e → e.content.assigned = true → e.changed = true ∨
    owed = some x

theorem tracked_empty : Tracked {} none := by
  have hnone : ∀ id, ({} : Tree).element? id = none := fun id => by simp [element?]
  constructor <;> simp [hnone]

/-- A tree in which all marks are set can be allowed to owe one. -/
theorem Tracked.owing (h : t.Tracked none) (owed : Option ElementId) : t.Tracked owed where
  above := fun hx hc hq hqe => .inl ((h.above hx hc hq hqe).resolve_right (by simp))
  assigned := fun hx hv => .inl ((h.assigned hx hv).resolve_right (by simp))

/-- An element that is gone is owed nothing. -/
theorem Tracked.settle (h : t.Tracked (some x)) (hx : t.element? x = none) : t.Tracked none where
  above := fun {y e q qe} hy hc hq hqe => (h.above hy hc hq hqe).imp_right fun howed => by
    obtain rfl := Option.some.inj howed
    rw [hx] at hqe
    cases hqe
  assigned := fun {y e} hy hv => (h.assigned hy hv).imp_right fun howed => by
    obtain rfl := Option.some.inj howed
    rw [hx] at hy
    cases hy

/-- Without new marks and values the tree stays tracked. -/
theorem Tracked.touches (h : t.Tracked owed) (hsize : t'.slots.size = t.slots.size)
    (ht : Touches ∅ ∅ t t') : t'.Tracked owed where
  above := fun {x e q qe} hx hc hq hqe => by
    obtain ⟨e₁, he₁, hpar, -, hmark, -⟩ := ht.element (hsize ▸ index_lt_of_element? hx) hx
    obtain ⟨q₁, hq₁, -, hkeep, -⟩ := ht.element (hsize ▸ index_lt_of_element? hqe) hqe
    have hc₁ : e₁.changed = true := (hmark hc).resolve_right (Set.notMem_empty x)
    exact (h.above he₁ hc₁ (hpar ▸ hq) hq₁).imp_left hkeep
  assigned := fun {x e} hx hv => by
    obtain ⟨e₁, he₁, -, hkeep, -, hval⟩ := ht.element (hsize ▸ index_lt_of_element? hx) hx
    have hv₁ : e₁.content.assigned = true := (hval hv).resolve_right (Set.notMem_empty x)
    exact (h.assigned he₁ hv₁).imp_left hkeep

/-- So do edits that touch nothing, and make nothing new. -/
theorem leads_tracked {α : Type} {edit : Edit α} (hs : Leads Shrinks edit)
    (ht : Leads (Touches ∅ ∅) edit) :
    Leads (Keeping (Tracked · owed)) edit := fun t h => h.touches (hs t).size (ht t)

/-- Removing a subtree leaves the marks going all the way up. -/
theorem tracked_removeSubtree (id : ElementId) :
    Leads (Keeping (Tracked · owed)) (removeSubtree id) :=
  leads_tracked (shrinks_removeSubtree id) (touches_removeSubtree id)

/-- So does unsetting. -/
theorem tracked_unset (id : ElementId) : Leads (Keeping (Tracked · owed)) (unset id) :=
  leads_tracked (shrinks_runUnset (.contents id)) (touches_runUnset (.contents id))

theorem tracked_runUnsets (hooks : List Unset) :
    Leads (Keeping (Tracked · owed)) (runUnsets hooks) :=
  leads_tracked (shrinks_runUnsets hooks) (touches_runUnsets hooks)

/-! ## Climbing -/

/-- A way up: each element is followed by its parent, and the last one has none. -/
def Climbs (t : Tree) : List ElementId → Prop
  | [] => True
  | x :: rest => (∀ e, t.element? x = some e → e.parent = rest.head?) ∧ t.Climbs rest

/-- Where elements keep their parents, a way up stays one. -/
theorem Climbs.touches {A V : Set ElementId} (ht : Touches A V t t') : ∀ {ids : List ElementId},
    (∀ x ∈ ids, x.index < t.slots.size) → t.Climbs ids → t'.Climbs ids
  | [], _, _ => trivial
  | x :: _, hlt, h => by
    refine ⟨fun e' he' => ?_, h.2.touches ht fun y hy => hlt y (List.mem_cons_of_mem x hy)⟩
    obtain ⟨e, he, hpar, -⟩ := ht.element (hlt x List.mem_cons_self) he'
    rw [hpar, h.1 e he]

/-- A way up is one still when elements are gone. -/
theorem Climbs.shrinks (hs : t.Shrinks t') : ∀ {ids : List ElementId}, t.Climbs ids → t'.Climbs ids
  | [], _ => trivial
  | _ :: _, h => by
    refine ⟨fun e' he' => ?_, h.2.shrinks hs⟩
    obtain ⟨e, he, hse⟩ := hs.element he'
    rw [Element.parent_of_bare hse.bare, h.1 e he]

/-- A plan marks the way up from its element. -/
theorem climbs_of_planFrom {fuel : Nat} {active : Option Case}
    (h : t.planFrom fuel id active = .ok p) : t.Climbs p.marks ∧ p.marks.head? = some id := by
  induction fuel generalizing id active p with
  | zero => cases h
  | succ fuel ih =>
    obtain ⟨e, hooks, he, -, ⟨hpar, rfl⟩ | ⟨q, above, hpar, habove, rfl⟩⟩ := planFrom_succ_eq_ok.1 h
    · refine ⟨⟨fun e' he' => ?_, trivial⟩, rfl⟩
      obtain rfl : e = e' := Option.some.inj (he.symm.trans he')
      exact hpar
    · obtain ⟨hclimbs, hhead⟩ := ih habove
      refine ⟨⟨fun e' he' => ?_, hclimbs⟩, rfl⟩
      obtain rfl : e = e' := Option.some.inj (he.symm.trans he')
      rw [hpar, hhead]

/-! ## Marking -/

/-- When an element has got its mark, its parent is owed one. -/
theorem Tracked.mark (h : t.Tracked (some x))
    (hnext : ∀ e, t.element? x = some e → e.parent = owed) :
    (t.modifyElement x fun e => { e with changed := true }).Tracked owed := by
  constructor
  case above =>
    intro y ye q qe hy hc hq hqe
    obtain ⟨q₁, hq₁, ⟨-, rfl⟩ | ⟨hqx, rfl⟩⟩ := modifyElement_cases hqe
    · exact .inl rfl
    · obtain ⟨e, he, ⟨rfl, rfl⟩ | ⟨-, rfl⟩⟩ := modifyElement_cases hy
      · exact .inr ((hnext e he).symm.trans hq)
      · refine .inl ((h.above he hc hq hq₁).resolve_right fun howed => ?_)
        exact hqx (Option.some.inj howed).symm
  case assigned =>
    intro y ye hy hv
    obtain ⟨e, he, ⟨-, rfl⟩ | ⟨hyx, rfl⟩⟩ := modifyElement_cases hy
    · exact .inl rfl
    · refine .inl ((h.assigned he hv).resolve_right fun howed => ?_)
      exact hyx (Option.some.inj howed).symm

/-- Marking a way up, the first element of which is owed its mark, leaves nothing owed. -/
theorem ensures_tracked {ids : List ElementId} (h : t.Tracked ids.head?) (hclimbs : t.Climbs ids) :
    (markChanged ids).Ensures t (fun _ t' => t'.Tracked none) fun _ t' => t'.Tracked none := by
  have hmark : ∀ a as t, t.Tracked (a :: as).head? ∧ t.Climbs (a :: as) →
      (update a fun e => { e with changed := true }).Ensures t
        (fun _ t' => t'.Tracked as.head? ∧ t'.Climbs as) fun _ t' => t'.Tracked none := by
    intro a as t ht
    obtain ⟨htracked, hnext, hrest⟩ := ht
    have hs : t.Shrinks (t.modifyElement a fun e => { e with changed := true }) := by
      refine SameFrame.shrinks (sameFrame_modifyElement ?_)
      exact fun _ _ => rfl
    exact ensures_update.2 ⟨fun _ _ => ⟨htracked.mark hnext, hrest.shrinks hs⟩,
      fun hnone => htracked.settle hnone⟩
  exact (ensures_forM (I := fun as t => t.Tracked as.head? ∧ t.Climbs as) hmark ⟨h, hclimbs⟩).mono
    (fun _ _ hd => hd.1) fun _ _ hf => hf

/-- Carrying out a plan whose marks are a way up. -/
theorem tracked_commit (hclimbs : t.Climbs p.marks) (h : t.Tracked none) :
    ((commit p).on t).2.Tracked none := by
  have hrun : (runUnsets p.unsets).Ensures t (fun _ t' => t.Shrinks t' ∧ t'.Tracked none)
      fun _ t' => t'.Tracked none :=
    (((shrinks_runUnsets p.unsets).ensures t).and ((tracked_runUnsets p.unsets).keeps h)).mono
      (fun _ _ hd => hd) fun _ _ hf => hf.2
  refine rel_of_ensures (R := fun _ t' => t'.Tracked none) (hrun.bind fun _ t' h' => ?_)
  exact ensures_tracked (h'.2.owing _) (hclimbs.shrinks h'.1)

/-! ## Assigning -/

/-- A leaf that gets a value is owed its mark. -/
theorem Tracked.store (h : t.Tracked none) (value : Option LeafValue) :
    (t.modifyElement x (store value)).Tracked (some x) := by
  have hback : ∀ {y ye}, (t.modifyElement x (Tree.store value)).element? y = some ye →
      ∃ e, t.element? y = some e ∧ ye.parent = e.parent ∧ ye.changed = e.changed ∧
        (y ≠ x → ye.content = e.content) := by
    intro y ye hy
    obtain ⟨e, he, ⟨hyx, rfl⟩ | ⟨-, rfl⟩⟩ := modifyElement_cases hy
    · refine ⟨e, he, ?_⟩
      unfold Tree.store
      split <;> exact ⟨rfl, rfl, fun hne => absurd hyx hne⟩
    · exact ⟨ye, he, rfl, rfl, fun _ => rfl⟩
  constructor
  case above =>
    intro y ye q qe hy hc hq hqe
    obtain ⟨e, he, hpar, hchanged, -⟩ := hback hy
    obtain ⟨q₁, hq₁, -, hqchanged, -⟩ := hback hqe
    rw [hqchanged]
    exact ((h.owing (some x)).above he (hchanged ▸ hc) (hpar ▸ hq) hq₁)
  case assigned =>
    intro y ye hy hv
    obtain ⟨e, he, -, hchanged, hcontent⟩ := hback hy
    by_cases hyx : y = x
    · exact .inr (by rw [hyx])
    · rw [hchanged]
      exact (h.owing (some x)).assigned he (hcontent hyx ▸ hv)

/-- Assigning marks the leaf and what is above it. -/
theorem tracked_assignFrom (fuel : Nat) (id : ElementId) (raw : Value) :
    Leads (Given (Tracked · none) Shrinks) (assignFrom fuel id raw) := by
  refine leads_assignFrom (R := Given (Tracked · none) Shrinks)
    (fun {t t' id p _ _} value hp _ _ h ht => ?_) fuel id raw
  obtain ⟨ht', hs⟩ := h ht
  obtain ⟨hclimbs, hhead⟩ := climbs_of_planFrom hp
  refine rel_of_ensures (R := fun _ t'' => t''.Tracked none ∧ t.Shrinks t'') ?_
  rw [ensures_bind]
  refine (((tracked_runUnsets p.unsets).keeps ht').and
    ((shrinks_runUnsets p.unsets).ensures t')).mono
    (fun _ t₁ h₁ => ?_) fun _ t₁ h₁ => ⟨h₁.1, trans_of Shrinks hs h₁.2⟩
  obtain ⟨ht₁, hs₁⟩ := h₁
  have hs₁ := trans_of Shrinks hs hs₁
  rw [ensures_bind, ensures_update]
  refine ⟨fun _ _ => ?_, fun _ => ⟨ht₁, hs₁⟩⟩
  have hs₂ : t.Shrinks (t₁.modifyElement id (store value)) :=
    trans_of Shrinks hs₁ (sameFrame_modifyElement fun e _ => frame_store value e).shrinks
  refine ((ensures_tracked ?_ (hclimbs.shrinks hs₂)).and
    ((shrinks_markChanged p.marks).ensures _)).mono
    (fun _ _ hd => ⟨hd.1, trans_of Shrinks hs₂ hd.2⟩) fun _ _ hf =>
      ⟨hf.1, trans_of Shrinks hs₂ hf.2⟩
  rw [hhead]
  exact ht₁.store value

/-- After an assignment marks go all the way up. -/
theorem tracked_setLeaf (id : ElementId) (raw : Value) :
    Leads (Keeping (Tracked · none)) (setLeaf id raw) :=
  fun t h => (leads_setLeaf tracked_assignFrom id raw t h).1

/-- So they do after a change of case. -/
theorem tracked_set (id : ElementId) (active : Option Case) :
    Leads (Keeping (Tracked · none)) (set id active) :=
  leads_reading_bind fun _ _ hp h => tracked_commit (climbs_of_planFrom hp).1 h

/-! ## Changing items -/

theorem shrinks_withContent {content : Content} (he : t.element? id = some e)
    (h : e.content.SameFrame content) : t.Shrinks (t.withContent id content) := by
  refine (sameFrame_modifyElement fun e' he' => ?_).shrinks
  obtain rfl : e = e' := Option.some.inj (he.symm.trans he')
  exact Element.frame_of_content h

/-- Registering and dropping items marks nothing. -/
theorem Tracked.of_slots (h : t.Tracked owed) (hs : t'.slots = t.slots) : t'.Tracked owed :=
  h.touches (congrArg Array.size hs) (touches_of_slots hs)

/-- So they do when items were edited. -/
theorem tracked_editItem (id : ElementId) (op : ItemEdit) :
    Leads (Keeping (Tracked · none)) (editItem id op) := by
  refine fun t h => rel_of_ensures (R := fun _ t' => t'.Tracked none)
    (ensures_editItem (fun _ => h) fun {p e item content} hp he hedit => ?_)
  have hs := shrinks_withContent he (Content.sameFrame_of_edit hedit)
  have hcontent := h.touches hs.size (touches_withContent (Content.assigned_of_edit hedit))
  refine (ensures_of_rel (R := fun _ t' => t'.Tracked none)
    (tracked_commit ((climbs_of_planFrom hp).1.shrinks hs) hcontent)).mono
    (fun _ t₂ h₂ => ⟨fun e₂ _ => ?_, fun _ => h₂⟩) fun _ _ hf => hf
  split
  · exact h₂.of_slots (slots_register t₂ e₂ _ _)
  · exact h₂.of_slots (slots_unregister t₂ e₂ _ _)

/-- So they do when items were added in bulk. -/
theorem tracked_extend (id : ElementId) (raws : List Value) :
    Leads (Keeping (Tracked · none)) (extend id raws) := by
  refine fun t h => rel_of_ensures (R := fun _ t' => t'.Tracked none)
    (ensures_extend (fun _ => h) fun {p e items content} hp he hextend => ?_)
  have hs := shrinks_withContent he (Content.sameFrame_of_extend hextend)
  have hcontent := h.touches hs.size (touches_withContent (Content.assigned_of_extend hextend))
  refine (ensures_of_rel (R := fun _ t' => t'.Tracked none)
    (tracked_commit ((climbs_of_planFrom hp).1.shrinks hs) hcontent)).mono
    (fun _ t₂ h₂ => ⟨fun e₂ _ => ?_, fun _ => ⟨h₂, h₂⟩⟩) fun _ _ hf => hf
  exact h₂.of_slots (slots_foldl_registerMember e₂ items t₂)

/-! ## Building -/

/-- A new element is not marked, and nothing is below it. -/
theorem tracked_wrap {content : Content} {spec : ElementSpec} (hinit : content.IsInitial)
    (hplain : ∀ l, content = .list l → l.schema.PlainThroughout) :
    Leads (Keeping fun t => t.Linked ∧ t.Tracked none) (wrap content spec) := by
  refine leads_wrap fun t hparent h => ?_
  have hlinked : ((wrap content spec).on t).2.Linked := linked_wrap hinit hplain t h.1
  rw [on_wrap content hparent] at hlinked
  refine ⟨hlinked, ?_⟩
  show (t.made content spec).Tracked none
  constructor
  case above =>
    intro x e' q qe hx hc hq hqe
    obtain ⟨rfl, rfl⟩ | ⟨e, he, htrunk, -⟩ := made_cases hx
    · rw [newElement, Element.changed_ofSpec hinit] at hc
      cases hc
    · obtain ⟨rfl, -⟩ | ⟨q₁, hq₁, hqtrunk, -⟩ := made_cases hqe
      · have hlt := h.1.parent_lt he (Element.parent_of_trunk htrunk ▸ hq)
        exact absurd (Nat.lt_trans hlt (index_lt_of_element? he)) (Nat.lt_irrefl _)
      · rw [Element.changed_of_trunk hqtrunk]
        exact h.2.above he (Element.changed_of_trunk htrunk ▸ hc)
          (Element.parent_of_trunk htrunk ▸ hq) hq₁
  case assigned =>
    intro x e' hx hv
    obtain ⟨rfl, rfl⟩ | ⟨e, he, htrunk, -⟩ := made_cases hx
    · rw [newElement, Element.ofSpec, Content.assigned_of_initial hinit] at hv
      cases hv
    · rw [Element.changed_of_trunk htrunk]
      exact h.2.assigned he (Element.content_of_trunk htrunk ▸ hv)

theorem size_slots_update (id : ElementId) (f : Element → Element) (t : Tree) :
    ((update id f).on t).2.slots.size = t.slots.size := by
  rw [on_update]
  split
  · exact size_slots_modifyElement t id f
  · rfl

/-- Building leaves links and marks in order. -/
theorem tracked_build {schema : Schema} {spec : ElementSpec}
    (h : schema.Uses (fun _ => True) ListSchema.PlainThroughout) :
    Leads (Keeping fun t => t.Linked ∧ t.Tracked none) (build schema spec) := by
  have hstable : BuildStable (Keeping fun t => t.Linked ∧ t.Tracked none)
      spec.registers (fun _ => True) ListSchema.PlainThroughout :=
    { wrap := fun _ _ hinit hplain _ => tracked_wrap hinit hplain
      field := fun {id name case isLeaf child} _ t ht =>
        ⟨linked_addField name case isLeaf child t ht.1,
          ht.2.touches (size_slots_update id _ t) (touches_addField name case isLeaf child t)⟩
      remove := fun id t ht => ⟨linked_removeSubtree id t ht.1, tracked_removeSubtree id t ht.2⟩ }
  exact hstable.build schema spec h rfl

end DataTree.Tree
