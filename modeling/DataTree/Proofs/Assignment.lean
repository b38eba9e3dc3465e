import DataTree.Proofs.Frame
import DataTree.Tree.KeyedList

/-!
# DataTree.Proofs.Assignment

Invariants of assignment.  Assigning to a leaf follows references to further
leaves, tries the candidates of unions, and runs unset hooks, and may stop after
any of these steps.  `AssignStable I good` collects what has to be known about the
single steps; `AssignStable.setLeaf` is what follows for assignment as a whole.

The hooks that a plan lists are run later, on a tree that may have changed in
between.  What is known about them, `good`, therefore has to speak of the hooks
alone.
-/

namespace DataTree.Tree

open Edit Outcome

/-! ## What a plan consists of -/

/-- A plan is made of the hooks of the element and of the plan of its parent. -/
theorem planFrom_succ_eq_ok {t : Tree} {fuel : Nat} {id : ElementId} {active : Option Case}
    {p : Plan} :
    t.planFrom (fuel + 1) id active = .ok p ↔
      ∃ e hooks, t.element? id = some e ∧ siblingHooks e active = .ok hooks ∧
        ((e.parent = none ∧ p = ⟨[id], hooks⟩) ∨
          ∃ parent above, e.parent = some parent ∧
            t.planFrom fuel parent (active.orElse fun _ => e.case) = .ok above ∧
            p = ⟨id :: above.marks, hooks ++ above.unsets⟩) := by
  rw [planFrom, bind_eq_ok]
  simp only [element_eq_ok_iff, bind_eq_ok]
  constructor
  · intro h
    obtain ⟨e, he, hooks, hh, h⟩ := h
    refine ⟨e, hooks, he, hh, ?_⟩
    cases hp : e.parent with
    | none =>
      rw [hp] at h
      exact .inl ⟨rfl, (pure_eq_ok.1 h).symm⟩
    | some parent =>
      rw [hp] at h
      obtain ⟨above, ha, h⟩ := bind_eq_ok.1 h
      exact .inr ⟨parent, above, rfl, ha, (pure_eq_ok.1 h).symm⟩
  · intro h
    obtain ⟨e, hooks, he, hh, h | h⟩ := h
    · obtain ⟨hp, rfl⟩ := h
      exact ⟨e, he, hooks, hh, by rw [hp]; rfl⟩
    · obtain ⟨parent, above, hp, ha, rfl⟩ := h
      refine ⟨e, he, hooks, hh, ?_⟩
      rw [hp]
      exact bind_eq_ok.2 ⟨above, ha, rfl⟩

/-- The hooks come from the element's own fields. -/
theorem mem_unsetters_of_siblingHooks {e : Element} {active : Option Case} {hooks : List Unset}
    (h : siblingHooks e active = .ok hooks) {hook : Unset} (hh : hook ∈ hooks) :
    ∃ field, Assoc.get? field e.unsetters = some hook := by
  cases active with
  | none =>
    obtain rfl := Except.ok.inj h
    cases hh
  | some active =>
    obtain ⟨⟨case, member⟩, -, hm⟩ := mem_of_mapM h hh
    refine ⟨member, ?_⟩
    cases hg : Assoc.get? member e.unsetters with
    | none => simp [hg] at hm
    | some hook' => simpa [hg] using hm

/-- Every hook of a plan is one of an element of the tree. -/
theorem mem_unsetters_of_planFrom {t : Tree} {fuel : Nat} {id : ElementId} {active : Option Case}
    {p : Plan} (h : t.planFrom fuel id active = .ok p) {hook : Unset} (hh : hook ∈ p.unsets) :
    ∃ owner e field, t.element? owner = some e ∧ Assoc.get? field e.unsetters = some hook := by
  induction fuel generalizing id active p with
  | zero => cases h
  | succ fuel ih =>
    obtain ⟨e, hooks, he, hs, h⟩ := planFrom_succ_eq_ok.1 h
    obtain ⟨-, rfl⟩ | ⟨parent, above, -, ha, rfl⟩ := h
    · obtain ⟨field, hf⟩ := mem_unsetters_of_siblingHooks hs hh
      exact ⟨id, e, field, he, hf⟩
    · obtain hh | hh := List.mem_append.1 hh
      · obtain ⟨field, hf⟩ := mem_unsetters_of_siblingHooks hs hh
        exact ⟨id, e, field, he, hf⟩
      · exact ih ha hh

/-- Every mark of a plan is one of an element of the tree. -/
theorem exists_of_mem_marks {t : Tree} {fuel : Nat} {id x : ElementId} {active : Option Case}
    {p : Plan} (h : t.planFrom fuel id active = .ok p) (hx : x ∈ p.marks) :
    ∃ e, t.element? x = some e := by
  induction fuel generalizing id active p with
  | zero => cases h
  | succ fuel ih =>
    obtain ⟨e, hooks, he, -, h⟩ := planFrom_succ_eq_ok.1 h
    obtain ⟨-, rfl⟩ | ⟨parent, above, -, ha, rfl⟩ := h
    · exact ⟨e, List.mem_singleton.1 hx ▸ he⟩
    · obtain rfl | hx := List.mem_cons.1 hx
      · exact ⟨e, he⟩
      · exact ih ha hx

/-! ## Construction with references -/

section

variable {R : Tree → Tree → Prop} [IsPreorder Tree R]

mutual

/-- Constructing moves along a relation if resolving references does. -/
theorem leads_constructOn {resolve : ReferenceType → Edit ReferenceValue} {raw : Value}
    (h : ∀ r, Leads R (resolve r)) : ∀ type, Leads R (constructOn resolve raw type)
  | .reference r => by
    rw [constructOn]
    exact (h r).bind fun v => leads_pure _
  | .union candidates => by
    rw [constructOn]
    split
    · split
      · exact leads_pure none
      · refine (leads_constructFirstOn h candidates).bind fun v => ?_
        cases v with
        | none => exact leads_throw _
        | some v => exact leads_pure _
    · exact leads_ofExcept _
  | .text _ => by rw [constructOn]; exact leads_ofExcept _; all_goals simp
  | .int _ => by rw [constructOn]; exact leads_ofExcept _; all_goals simp
  | .uint _ => by rw [constructOn]; exact leads_ofExcept _; all_goals simp
  | .decimal _ _ => by rw [constructOn]; exact leads_ofExcept _; all_goals simp
  | .bool => by rw [constructOn]; exact leads_ofExcept _; all_goals simp

/-- Trying the members of a union, where resolving stays within a relation. -/
theorem leads_constructFirstOn {resolve : ReferenceType → Edit ReferenceValue} {raw : Value}
    (h : ∀ r, Leads R (resolve r)) : ∀ types, Leads R (constructFirstOn resolve raw types)
  | [] => by rw [constructFirstOn]; exact leads_pure none
  | type :: types => by
    rw [constructFirstOn]
    refine ((leads_constructOn h type).tryCatch fun _ => leads_pure none).bind fun v => ?_
    cases v with
    | none => exact leads_constructFirstOn h types
    | some v => exact leads_pure _

end

/-- Writing through a reference is assigning to another leaf. -/
theorem leads_writeThrough {assign : ElementId → Value → Edit Unit}
    (h : ∀ id raw, Leads R (assign id raw)) (target : Element) (field : String) (raw : Value) :
    Leads R (writeThrough assign target field raw) := by
  unfold writeThrough get
  split
  · exact leads_throw _
  · exact (leads_reading _).bind fun p => (leads_ofExcept _).bind fun leaf => h leaf raw

/-- Resolving a reference moves along a relation if assigning to its target does. -/
theorem leads_resolveWith {assign : ElementId → Value → Edit Unit}
    (h : ∀ id raw, Leads R (assign id raw)) (r : ReferenceType) (caller : ElementId)
    (raw : Value) : Leads R (resolveWith assign r caller raw) := by
  unfold resolveWith get
  refine (leads_reading _).bind fun e => ?_
  split
  · exact leads_pure _
  refine (leads_reading _).bind fun found => ?_
  extract_lets finish decide?
  have hd : ∀ target?, Leads R (decide? target?) := by
    intro target?
    cases target? with
    | none => exact leads_reading _
    | some target =>
      show Leads R (ite _ _ _)
      split
      · exact (leads_writeThrough h target _ raw).bind fun _ => leads_pure _
      · exact leads_pure _
  split
  · exact (leads_reading _).bind fun target => (leads_pure _).bind hd
  · exact (leads_pure _).bind hd

end

/-! ## Assigning along a relation -/

section

variable {R : Tree → Tree → Prop} [IsPreorder Tree R]

/-- Assigning moves along a relation if the last step does: carrying out the plan and
storing the value that was made, on a tree that making it may have changed. -/
theorem leads_assignFrom_of_constructed
    (last : ∀ {t t' : Tree} {fuel : Nat} {id : ElementId} {raw : Value} {p : Plan} {e : Element}
      {type : LeafType} {value : Option LeafValue}, t.plan id none = .ok p →
      t.element? id = some e → leafType e = .ok type →
      (constructOn (fun r => resolveWith (assignFrom fuel) r id raw) raw type).on t =
        (.ok value, t') →
      R t t' → R t ((do
        runUnsets p.unsets
        update id (store value)
        markChanged p.marks : Edit Unit).on t').2) (fuel : Nat) (id : ElementId) (raw : Value) :
    Leads R (assignFrom fuel id raw) := by
  induction fuel generalizing id raw with
  | zero => exact leads_throw _
  | succ fuel ih =>
    unfold Tree.assignFrom get
    refine leads_reading_bind fun t p hp => ?_
    refine rel_bind (leads_reading _ t) fun e t₁ he => ?_
    rw [on_reading, Prod.mk.injEq, element_eq_ok_iff] at he
    obtain ⟨he, rfl⟩ := he
    refine rel_bind (leads_ofExcept _ t) fun type t₁ htype => ?_
    rw [on_ofExcept, Prod.mk.injEq] at htype
    obtain ⟨htype, rfl⟩ := htype
    have hconstruct :
        R t ((constructOn (fun r => resolveWith (assignFrom fuel) r id raw) raw type).on t).2 :=
      leads_constructOn (fun r => leads_resolveWith ih r id raw) type t
    rw [on_bind]
    generalize hr : (constructOn _ raw type).on t = r at hconstruct ⊢
    obtain ⟨err | value, t'⟩ := r
    · exact hconstruct
    · exact last hp he htype hr hconstruct

/-- The same where it does not matter which value is stored. -/
theorem leads_assignFrom
    (last : ∀ {t t' : Tree} {id : ElementId} {p : Plan} {e : Element} {type : LeafType}
      (value : Option LeafValue), t.plan id none = .ok p → t.element? id = some e →
      leafType e = .ok type → R t t' → R t ((do
        runUnsets p.unsets
        update id (store value)
        markChanged p.marks : Edit Unit).on t').2)
    (fuel : Nat) (id : ElementId) (raw : Value) : Leads R (assignFrom fuel id raw) :=
  leads_assignFrom_of_constructed (fun hp he htype _ h => last _ hp he htype h) fuel id raw

/-- Assigning, whatever chain of references it follows. -/
theorem leads_setLeaf (h : ∀ fuel id raw, Leads R (assignFrom fuel id raw)) (id : ElementId)
    (raw : Value) : Leads R (setLeaf id raw) :=
  (leads_reading _).bind fun t => h (t.slots.size + 1) id raw

/-- Assigning a key is assigning its parts one by one. -/
theorem leads_assignKey (h : ∀ id raw, Leads R (setLeaf id raw)) (entry : ElementId)
    (parts : List (String × String)) : Leads R (assignKey entry parts) := by
  induction parts with
  | nil => exact leads_pure ()
  | cons fp rest ih =>
    obtain ⟨field, part⟩ := fp
    unfold Tree.assignKey get
    exact (leads_reading _).bind fun e => (leads_ofExcept _).bind fun leaf =>
      (h leaf (.text part)).bind fun _ => ih

end

/-! ## Assignment -/

/-- What makes an invariant one of assignment: the hooks of a plan are `good`,
running a good one keeps the invariant, and so do storing a value and marking. -/
structure AssignStable (I : Tree → Prop) (good : Unset → Prop) : Prop where
  plan : ∀ {t id active p}, I t → t.plan id active = .ok p → ∀ hook ∈ p.unsets, good hook
  unset : ∀ {hook}, good hook → Leads (Keeping I) (runUnset hook)
  store : ∀ id value, Leads (Keeping I) (update id (store value))
  mark : ∀ id changed, Leads (Keeping I) (update id fun e => { e with changed })

namespace AssignStable

variable {I : Tree → Prop} {good : Unset → Prop}

/-- Good hooks keep the invariant. -/
theorem runUnsets (h : AssignStable I good) {hooks : List Unset} (hg : ∀ hook ∈ hooks, good hook) :
    Leads (Keeping I) (runUnsets hooks) := leads_forM fun hook hm => h.unset (hg hook hm)

theorem markChanged (h : AssignStable I good) (ids : List ElementId) :
    Leads (Keeping I) (markChanged ids) := leads_forM fun id _ => h.mark id true

theorem restoreMarks (h : AssignStable I good) (marks : List (ElementId × Bool)) :
    Leads (Keeping I) (restoreMarks marks) := leads_forM fun m _ => h.mark m.1 m.2

/-- Carrying out a plan with good hooks keeps the invariant. -/
theorem commit (h : AssignStable I good) {p : Plan} (hg : ∀ hook ∈ p.unsets, good hook) :
    Leads (Keeping I) (commit p) := (h.runUnsets hg).bind fun _ => h.markChanged p.marks

/-- A plan is made, and good, before anything happens. -/
theorem plan_bind {α : Type} (h : AssignStable I good) {id : ElementId} {active : Option Case}
    {f : Plan → Edit α} (hf : ∀ p, (∀ hook ∈ p.unsets, good hook) → Leads (Keeping I) (f p)) :
    Leads (Keeping I) (reading (fun t => t.plan id active) >>= f) :=
  leads_reading_bind fun t p hp ht => hf p (h.plan ht hp) t ht

/-- Changing a case is carrying out a plan. -/
theorem set (h : AssignStable I good) (id : ElementId) (active : Option Case) :
    Leads (Keeping I) (set id active) := h.plan_bind fun _ => h.commit

/-- Assigning keeps the invariant, however long the chain of references is. -/
theorem assignFrom (h : AssignStable I good) (fuel : Nat) (id : ElementId) (raw : Value) :
    Leads (Keeping I) (assignFrom fuel id raw) := by
  refine leads_assignFrom (fun {t t' id p} _ _ value hp _ _ hi ht => ?_) fuel id raw
  have hgood := h.plan ht hp
  exact ((h.runUnsets hgood).bind fun _ =>
    (h.store id value).bind fun _ => h.markChanged p.marks) t' (hi ht)

/-- **Assigning keeps an invariant** that hooks, values and marks keep. -/
theorem setLeaf (h : AssignStable I good) (id : ElementId) (raw : Value) :
    Leads (Keeping I) (setLeaf id raw) := leads_setLeaf h.assignFrom id raw

/-- So does assigning the parts of a key. -/
theorem assignKey (h : AssignStable I good) (entry : ElementId) (parts : List (String × String)) :
    Leads (Keeping I) (assignKey entry parts) := leads_assignKey h.setLeaf entry parts

end AssignStable

/-! ## Invariants that speak of frames only -/

/-- An invariant that data and marks do not concern, and that good hooks keep. -/
structure FrameStable (I : Tree → Prop) (good : Unset → Prop) : Prop where
  plan : ∀ {t id active p}, I t → t.plan id active = .ok p → ∀ hook ∈ p.unsets, good hook
  unset : ∀ {hook}, good hook → Leads (Keeping I) (runUnset hook)
  same : ∀ {t t'}, t.SameFrame t' → I t → I t'

namespace FrameStable

variable {I : Tree → Prop} {good : Unset → Prop}

/-- What changes no frame keeps an invariant of frames. -/
theorem leads {α : Type} (h : FrameStable I good) {x : Edit α} (hx : Leads SameFrame x) :
    Leads (Keeping I) x := fun t => h.same (hx t)

/-- An invariant of frames is kept by values and marks. -/
theorem assignStable (h : FrameStable I good) : AssignStable I good where
  plan := h.plan
  unset := h.unset
  store := fun _ value => h.leads (sameFrame_update (frame_store value))
  mark :=
    fun _ changed => h.leads (sameFrame_update (f := fun e => { e with changed }) fun _ => rfl)

/-- Editing items keeps an invariant of frames. -/
theorem editItem (h : FrameStable I good) (id : ElementId) (op : ItemEdit) :
    Leads (Keeping I) (editItem id op) := by
  unfold Tree.editItem get
  refine h.assignStable.plan_bind fun p hp => leads_reading_bind fun t e he => ?_
  rw [element_eq_ok_iff] at he
  refine rel_bind (leads_ofExcept _ t) fun r t' hr => ?_
  obtain ⟨item, content⟩ := r
  rw [on_ofExcept, Prod.mk.injEq] at hr
  obtain ⟨hr, rfl⟩ := hr
  refine rel_bind (h.same (sameFrame_update_content he (Content.sameFrame_of_edit hr)))
    fun _ t' _ => ?_
  refine (h.assignStable.commit hp).bind (fun _ => (leads_reading _).bind fun e => ?_) t'
  refine Leads.bind ?_ fun _ => leads_pure item
  refine h.leads (leads_changing fun t => ?_)
  split
  · exact sameFrame_register t e _ _
  · exact sameFrame_unregister t e _ _

/-- So does adding in bulk. -/
theorem extend (h : FrameStable I good) (id : ElementId) (raws : List Value) :
    Leads (Keeping I) (extend id raws) := by
  unfold Tree.extend get
  refine h.assignStable.plan_bind fun p hp => leads_reading_bind fun t e he => ?_
  rw [element_eq_ok_iff] at he
  refine rel_bind (leads_ofExcept _ t) fun r t' hr => ?_
  obtain ⟨items, content⟩ := r
  rw [on_ofExcept, Prod.mk.injEq] at hr
  obtain ⟨hr, rfl⟩ := hr
  refine rel_bind (h.same (sameFrame_update_content he (Content.sameFrame_of_extend hr)))
    fun _ t' _ => ?_
  refine (h.assignStable.commit hp).bind (fun _ => ?_) t'
  refine (leads_forM fun item _ => (leads_reading _).bind fun e => ?_).bind fun _ =>
    leads_pure items
  exact h.leads (leads_changing fun t => sameFrame_register t e _ _)

end FrameStable

/-! ## Assignment takes elements away at most -/

/-- What a tree has shrunk to is an invariant of assignment. -/
theorem frameStable_shrinks (t₀ : Tree) : FrameStable (Shrinks t₀) fun _ => True where
  plan := fun _ _ _ _ => trivial
  unset := fun {hook} _ t ht => trans_of Shrinks ht (shrinks_runUnset hook t)
  same := fun hs ht => trans_of Shrinks ht hs.shrinks

/-- Assigning takes away only what its plan unsets. -/
theorem shrinks_setLeaf (id : ElementId) (raw : Value) : Leads Shrinks (setLeaf id raw) :=
  fun t => (frameStable_shrinks t).assignStable.setLeaf id raw t (refl_of Shrinks t)

/-- So does assigning a key. -/
theorem shrinks_assignKey (entry : ElementId) (parts : List (String × String)) :
    Leads Shrinks (assignKey entry parts) :=
  fun t => (frameStable_shrinks t).assignStable.assignKey entry parts t (refl_of Shrinks t)

end DataTree.Tree
