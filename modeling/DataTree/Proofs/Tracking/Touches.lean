import DataTree.Proofs.Items
import DataTree.Proofs.Tracking.Linked

/-!
# DataTree.Proofs.Tracking.Touches

Which elements get a mark or a value.

`Touches A V` is the relation of the steps that mark elements of `A` at most and give
values to leaves of `V` at most, and that take no mark away.  Removing and unsetting
touch nothing.
-/

namespace DataTree

open Edit Outcome

namespace Content

/-- A leaf that has a value. -/
def assigned : Content → Bool
  | .leaf slot => slot.value.isSome
  | _ => false

theorem assigned_of_initial {c : Content} (h : c.IsInitial) : c.assigned = false := by
  cases c with
  | leaf slot => simp [assigned, show slot.value = none from h]
  | _ => rfl

/-- A content that can be edited is no leaf with a value. -/
theorem assigned_of_edit {op : ItemEdit} {c c' : Content} {v : Value}
    (h : c.edit op = .ok (v, c')) :
    c'.assigned = false := by
  have hb := (sameFrame_of_edit h).1
  cases c with
  | leaf slot => simp [edit] at h
  | _ =>
    cases c' with
    | leaf slot => simp [bare] at hb
    | _ => rfl

/-- Nor is one that can be extended. -/
theorem assigned_of_extend {raws vs : List Value} {c c' : Content}
    (h : c.extend raws = .ok (vs, c')) : c'.assigned = false := by
  have hb := (sameFrame_of_extend h).1
  cases c with
  | leaf slot => simp [extend] at h
  | _ =>
    cases c' with
    | leaf slot => simp [bare] at hb
    | _ => rfl

/-- What was cleared has no value. -/
theorem assigned_of_clear {vs : List Value} {c c' : Content} (h : c.clear = .ok (vs, c')) :
    c'.assigned = false := by
  have hb := (sameFrame_of_clear h).1
  cases c with
  | leaf slot =>
    simp only [clear, Except.ok.injEq, Prod.mk.injEq] at h
    rw [← h.2]
    rfl
  | _ =>
    cases c' with
    | leaf slot => simp [bare] at hb
    | _ => rfl

end Content

/-- A new element that holds nothing is not marked. -/
theorem Element.changed_ofSpec {id : ElementId} {content : Content} {spec : ElementSpec}
    {path : String} (h : content.IsInitial) :
    (Element.ofSpec id content spec path).changed = false := by
  have hempty : content.supplied.isEmpty = true := by
    cases content with
    | leaf slot => rw [Content.supplied, LeafSlot.supplied, show slot.value = none from h]; rfl
    | leafList l => simp [Content.supplied, LeafList.isEmpty, show l.items = [] from h]; rfl
    | custom c => exact h.elim
    | _ => rfl
  simp [Element.ofSpec, hempty]

/-- Taking something out touches nothing. -/
theorem Element.assigned_detach (e : Element) (name : String) (id : ElementId) :
    (e.detach name id).parent = e.parent ∧ (e.detach name id).changed = e.changed ∧
      (e.detach name id).content.assigned = e.content.assigned := by
  unfold Element.detach
  split
  · next hc => split <;> exact ⟨rfl, rfl, rfl⟩
  · next l hl => exact ⟨rfl, rfl, by rw [hl]; rfl⟩
  · exact ⟨rfl, rfl, rfl⟩

namespace Tree

variable {t t' : Tree} {id x : ElementId} {e : Element} {A V : Set ElementId}

/-! ## The relation -/

/-- Of the old elements, those in `A` are marked at most, and those in `V` get values at most; no
mark goes. -/
structure Touches (A V : Set ElementId) (t t' : Tree) : Prop where
  size_le : t.slots.size ≤ t'.slots.size
  element : ∀ {x e'}, x.index < t.slots.size → t'.element? x = some e' →
    ∃ e, t.element? x = some e ∧
    e'.parent = e.parent ∧ (e.changed = true → e'.changed = true) ∧
      (e'.changed = true → e.changed = true ∨ x ∈ A) ∧
      (e'.content.assigned = true → e.content.assigned = true ∨ x ∈ V)

instance (A V : Set ElementId) : IsPreorder Tree (Touches A V) where
  refl t := ⟨Nat.le_refl _, fun {x e'} _ he => ⟨e', he, rfl, fun h => h, .inl, .inl⟩⟩
  trans t₁ t₂ t₃ h h' :=
    { size_le := Nat.le_trans h.size_le h'.size_le
      element := fun {x e₃} hx he₃ => by
        obtain ⟨e₂, he₂, hpar', hkeep', hmark', hval'⟩ :=
          h'.element (Nat.lt_of_lt_of_le hx h.size_le) he₃
        obtain ⟨e₁, he₁, hpar, hkeep, hmark, hval⟩ := h.element hx he₂
        exact ⟨e₁, he₁, hpar'.trans hpar, fun hc => hkeep' (hkeep hc),
          fun hc => (hmark' hc).elim hmark .inr, fun hv => (hval' hv).elim hval .inr⟩ }

/-- More may be touched. -/
theorem Touches.mono {A' V' : Set ElementId} (h : Touches A V t t') (hA : A ⊆ A') (hV : V ⊆ V') :
    Touches A' V' t t' where
  size_le := h.size_le
  element := fun hx he => by
    obtain ⟨e, he, hpar, hkeep, hmark, hval⟩ := h.element hx he
    exact ⟨e, he, hpar, hkeep, fun hc => (hmark hc).imp_right (hA ·),
      fun hv => (hval hv).imp_right (hV ·)⟩

/-- What touches nothing moves along the relation in any case. -/
theorem Touches.of_empty (h : Touches ∅ ∅ t t') : Touches A V t t' :=
  h.mono (Set.empty_subset A) (Set.empty_subset V)

/-- Marks and values are in the slots alone. -/
theorem touches_of_slots (hs : t'.slots = t.slots) : Touches A V t t' where
  size_le := Nat.le_of_eq (congrArg Array.size hs).symm
  element := fun {x e'} _ he => ⟨e', by rw [← element?_congr hs, he], rfl, fun h => h, .inl, .inl⟩

/-- A change outside of the slots touches nothing. -/
theorem Touches.of_slots {t'' : Tree} (h : Touches A V t t') (hs : t''.slots = t'.slots) :
    Touches A V t t'' :=
  trans_of (Touches A V) h (touches_of_slots hs)

/-- A changed element may get a mark if it is in `A`, and a value if it is in `V`. -/
theorem touches_modifyElement {f : Element → Element} (h : ∀ e, t.element? id = some e →
      (f e).parent = e.parent ∧ (e.changed = true → (f e).changed = true) ∧
        ((f e).changed = true → e.changed = true ∨ id ∈ A) ∧
        ((f e).content.assigned = true → e.content.assigned = true ∨ id ∈ V)) :
    Touches A V t (t.modifyElement id f) where
  size_le := by simp
  element := fun {x e'} _ he' => by
    obtain ⟨e, he, ⟨rfl, rfl⟩ | ⟨-, rfl⟩⟩ := modifyElement_cases he'
    · exact ⟨e, he, h e he⟩
    · exact ⟨e', he, rfl, fun h => h, .inl, .inl⟩

/-- Another content that is no leaf with a value. -/
theorem touches_withContent {content : Content} (h : content.assigned = false) :
    Touches A V t (t.withContent id content) :=
  touches_modifyElement fun _ _ => ⟨rfl, fun h => h, .inl, fun hv => by
    rw [h] at hv
    cases hv⟩

/-! ## Removing and unsetting -/

/-- Removing a subtree marks nothing. -/
theorem touches_removeSubtree (id : ElementId) : Leads (Touches A V) (removeSubtree id) := by
  unfold removeSubtree get
  refine (leads_reading _).bind fun doomed =>
    (leads_reading _).bind fun e => leads_changing fun t => ?_
  obtain ⟨hel, hsize, -⟩ := foldl_drop doomed (t.detach e)
  refine ⟨by rw [hsize, size_slots_detach], fun {x e'} _ he' => ?_⟩
  rw [hel] at he'
  split at he'
  · cases he'
  · rw [element?_detach] at he'
    split at he'
    · obtain ⟨xe, hxe, rfl⟩ := Option.map_eq_some_iff.1 he'
      obtain ⟨hpar, hchanged, hassigned⟩ := xe.assigned_detach e.name e.id
      exact ⟨xe, hxe, hpar, fun h => hchanged ▸ h,
        fun h => .inl (hchanged ▸ h), fun h => .inl (hassigned ▸ h)⟩
    · exact ⟨e', he', rfl, fun h => h, .inl, .inl⟩

/-- Clearing marks nothing. -/
theorem touches_clear (id : ElementId) : Leads (Touches A V) (clear id) := by
  unfold clear get
  refine (leads_reading _).bind fun e => ?_
  split
  · refine Leads.bind ?_ fun _ => leads_forM fun entry _ => touches_removeSubtree entry
    exact leads_update fun t _ _ => touches_withContent rfl
  · intro t
    refine rel_bind (leads_ofExcept _ t) fun r t' hr => ?_
    obtain ⟨items, content⟩ := r
    rw [on_ofExcept, Prod.mk.injEq] at hr
    obtain ⟨hclear, rfl⟩ := hr
    refine rel_bind (leads_update
      (fun t _ _ => touches_withContent (Content.assigned_of_clear hclear)) t)
      fun _ t' _ => leads_changing (fun t => touches_of_slots (foldl_unregisterMember e _ t).1) t'

/-- A hook marks nothing. -/
theorem touches_runUnset (hook : Unset) : Leads (Touches A V) (runUnset hook) := by
  cases hook with
  | contents id =>
    exact (leads_reading _).bind fun _ => leads_forM fun holder _ => touches_clear holder
  | subtree id => exact touches_removeSubtree id

theorem touches_runUnsets (hooks : List Unset) : Leads (Touches A V) (runUnsets hooks) :=
  leads_forM fun hook _ => touches_runUnset hook

/-! ## Marking and assigning -/

theorem touches_mark (hx : x ∈ A) :
    Leads (Touches A V) (update x fun e => { e with changed := true }) :=
  leads_update fun _ _ _ => touches_modifyElement fun _ _ =>
    ⟨rfl, fun _ => rfl, fun _ => .inr hx, .inl⟩

/-- Marking touches what is marked. -/
theorem touches_markChanged {ids : List ElementId} (h : ∀ x ∈ ids, x ∈ A) :
    Leads (Touches A V) (markChanged ids) := leads_forM fun x hx => touches_mark (h x hx)

/-- Carrying out a plan touches what it marks. -/
theorem touches_commit {p : Plan} (h : ∀ x ∈ p.marks, x ∈ A) : Leads (Touches A V) (commit p) :=
  (touches_runUnsets p.unsets).bind fun _ => touches_markChanged h

/-- A value touches its leaf. -/
theorem touches_store (hx : x ∈ V) (value : Option LeafValue) :
    Leads (Touches A V) (update x (store value)) := by
  refine leads_update fun _ _ _ => touches_modifyElement fun e _ => ?_
  unfold store
  split <;> exact ⟨rfl, fun h => h, .inl, fun _ => .inr hx⟩

/-- Assigning gives values and sets marks, and takes no mark away. -/
theorem touches_assignFrom (fuel : Nat) (id : ElementId) (raw : Value) :
    Leads (Touches Set.univ Set.univ) (assignFrom fuel id raw) := by
  refine leads_assignFrom (R := Touches Set.univ Set.univ) (fun {_ t' id p _ _} value _ _ _ h =>
    trans_of (Touches Set.univ Set.univ) h ?_) fuel id raw
  exact ((touches_runUnsets p.unsets).bind fun _ =>
    (touches_store (Set.mem_univ id) value).bind fun _ =>
    touches_markChanged fun x _ => Set.mem_univ x) t'

theorem touches_setLeaf (id : ElementId) (raw : Value) :
    Leads (Touches Set.univ Set.univ) (setLeaf id raw) := leads_setLeaf touches_assignFrom id raw

/-- Changing a case only sets marks. -/
theorem touches_set (id : ElementId) (active : Option Case) :
    Leads (Touches Set.univ Set.univ) (set id active) :=
  (leads_reading _).bind fun _ => touches_commit fun x _ => Set.mem_univ x

/-- Editing items only sets marks. -/
theorem touches_editItem (id : ElementId) (op : ItemEdit) :
    Leads (Touches Set.univ Set.univ) (editItem id op) := by
  refine fun t => rel_of_ensures (ensures_editItem (fun _ => refl_of (Touches Set.univ Set.univ) t)
    fun {p e item content} _ _ hedit => ?_)
  have hcommit : Leads (Touches Set.univ Set.univ) (commit p) :=
    touches_commit fun x _ => Set.mem_univ x
  have hcontent : Touches Set.univ Set.univ t (t.withContent id content) :=
    touches_withContent (Content.assigned_of_edit hedit)
  refine (hcommit.ensures _).mono (fun _ t₂ h₂ => ?_) fun _ t₂ h₂ =>
    trans_of (Touches Set.univ Set.univ) hcontent h₂
  have h₂ := trans_of (Touches Set.univ Set.univ) hcontent h₂
  refine ⟨fun e₂ _ => trans_of (Touches Set.univ Set.univ) h₂ ?_, fun _ => h₂⟩
  split
  · exact touches_of_slots (slots_register t₂ e₂ _ _)
  · exact touches_of_slots (slots_unregister t₂ e₂ _ _)

/-- So does adding in bulk. -/
theorem touches_extend (id : ElementId) (raws : List Value) :
    Leads (Touches Set.univ Set.univ) (extend id raws) := by
  refine fun t => rel_of_ensures (ensures_extend (fun _ => refl_of (Touches Set.univ Set.univ) t)
    fun {p e items content} _ _ hextend => ?_)
  have hcommit : Leads (Touches Set.univ Set.univ) (commit p) :=
    touches_commit fun x _ => Set.mem_univ x
  have hcontent : Touches Set.univ Set.univ t (t.withContent id content) :=
    touches_withContent (Content.assigned_of_extend hextend)
  refine (hcommit.ensures _).mono (fun _ t₂ h₂ => ?_) fun _ t₂ h₂ =>
    trans_of (Touches Set.univ Set.univ) hcontent h₂
  have h₂ := trans_of (Touches Set.univ Set.univ) hcontent h₂
  exact ⟨fun e₂ _ => trans_of (Touches Set.univ Set.univ) h₂
    (touches_of_slots (slots_foldl_registerMember e₂ items t₂)), fun _ => ⟨h₂, h₂⟩⟩

/-! ## Building -/

/-- A new element is not an old one. -/
theorem touches_wrap (content : Content) (spec : ElementSpec) :
    Leads (Touches A V) (wrap content spec) := by
  refine leads_wrap fun t _ => ?_
  show Touches A V t (t.made content spec)
  refine ⟨by simp [made], fun {x e'} hx he' => ?_⟩
  obtain ⟨rfl, -⟩ | ⟨e, he, htrunk, -⟩ := made_cases he'
  · exact absurd hx (Nat.lt_irrefl _)
  · rw [Element.parent_of_trunk htrunk, Element.changed_of_trunk htrunk,
      Element.content_of_trunk htrunk]
    exact ⟨e, he, rfl, fun h => h, .inl, .inl⟩

theorem touches_addField (name : String) (case : Option Case) (isLeaf : Bool) (child : ElementId) :
    Leads (Touches A V) (update id (addField name case isLeaf child)) :=
  leads_update fun _ _ _ => touches_modifyElement fun _ _ => ⟨rfl, fun h => h, .inl, .inl⟩

/-- Building touches no old element. -/
theorem touches_build (schema : Schema) (spec : ElementSpec) :
    Leads (Touches A V) (build schema spec) := by
  have hstable : BuildStable (Touches A V) spec.registers (fun _ => True) fun _ => True :=
    { wrap := fun content spec _ _ _ => touches_wrap content spec
      field := fun _ => touches_addField _ _ _ _
      remove := touches_removeSubtree }
  exact hstable.build schema spec (schema.uses_of_forall (fun _ => trivial) fun _ => trivial) rfl

end Tree

end DataTree
