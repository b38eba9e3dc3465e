import DataTree.Proofs.Items
import DataTree.Proofs.Session
import DataTree.Proofs.Typing.Values

/-!
# DataTree.Proofs.Typing.Session

Stored values satisfy their types.

A value gets into a leaf in one place only, at the end of an assignment, and there it is
one that the type of the leaf has made (`constructOn_admits`).  Between the making and
the storing the tree may change, because a reference writes through to another leaf and
siblings in choices are unset, but the type of a leaf never does.  So the tree conforms
after every assignment (`conforms_assignFrom`), and after every operation that assigns,
edits, removes or builds (`conforms_after`).
-/

namespace DataTree.Tree

open Edit Outcome

variable {t t' : Tree} {id : ElementId} {raw : Value}

/-! ## What is constructed -/

/-- What comes of a reference the reference admits: pointers go along its own path. -/
theorem resolveWith_admits (assign : ElementId → Value → Edit Unit) (r : ReferenceType)
    (caller : ElementId) (raw : Value) (t : Tree) :
    (resolveWith assign r caller raw).Ensures t
      (fun v _ => (LeafType.reference r).Admits (.reference v)) fun _ _ => True := by
  unfold resolveWith
  rw [ensures_get_bind]
  refine ⟨fun e _ => ?_, fun _ => trivial⟩
  split
  · intro path hpath
    cases hpath
  rw [ensures_reading_bind]
  refine ⟨fun found _ => ?_, fun _ _ => trivial⟩
  extract_lets finish decide?
  have hd : ∀ target? t', (decide? target?).Ensures t'
      (fun v _ => (LeafType.reference r).Admits (.reference v)) fun _ _ => True := by
    intro target? t'
    have hpointer : (LeafType.reference r).Admits (.reference (.pointer r.path)) := by
      intro path hpath
      exact (ReferenceValue.pointer.inj hpath).symm
    cases target? with
    | none =>
      refine ensures_reading.2 ⟨fun v hv path hpath => ?_, fun _ _ => trivial⟩
      subst hpath
      unfold choose at hv
      split at hv
      · cases hv
      · split at hv
        · cases hv
        · obtain ⟨admitted, -, hv⟩ := bind_eq_ok.1 hv
          split at hv
          · cases hv
          · obtain ⟨labels, -, hv⟩ := bind_eq_ok.1 hv
            cases hv
    | some target =>
      show Ensures (ite _ _ _) t' _ _
      split
      · exact ((ensures_true _ t').bind fun _ _ _ => hpointer)
      · exact hpointer
  split
  · rw [ensures_get_bind]
    exact ⟨fun _ _ => hd _ t, fun _ => trivial⟩
  · exact hd none t

/-- A constructed value conforms to its type. -/
theorem ensures_construct (type : LeafType) (raw : Value) (t : Tree) :
    (ofExcept (type.construct raw)).Ensures t (fun made _ => ∀ v, made = some v → type.Admits v)
      fun _ _ => True :=
  ensures_reading.2 ⟨fun _ hmade _ hv => LeafType.admits_of_construct (hv ▸ hmade),
    fun _ _ => trivial⟩

mutual

/-- What a type makes on the tree it admits, if references do. -/
theorem constructOn_admits {resolve : ReferenceType → Edit ReferenceValue}
    (h : ∀ r t, (resolve r).Ensures t (fun v _ => (LeafType.reference r).Admits (.reference v))
      fun _ _ => True) :
    ∀ (type : LeafType) (t : Tree), (constructOn resolve raw type).Ensures t
      (fun made _ => ∀ v, made = some v → type.Admits v) fun _ _ => True
  | .reference r, t => by
    rw [constructOn]
    exact (h r t).bind fun v t' hv w hw => Option.some.inj hw ▸ hv
  | .union candidates, t => by
    rw [constructOn]
    split
    · split
      · intro v hv
        cases hv
      · refine (constructFirstOn_admits h candidates t).bind fun made t' hmade => ?_
        cases made with
        | none => exact trivial
        | some v =>
          intro w hw
          rw [LeafType.Admits]
          exact hmade w hw
    · exact ensures_construct _ raw t
  | .text _, t => by rw [constructOn]; exact ensures_construct _ raw t; all_goals simp
  | .int _, t => by rw [constructOn]; exact ensures_construct _ raw t; all_goals simp
  | .uint _, t => by rw [constructOn]; exact ensures_construct _ raw t; all_goals simp
  | .decimal _ _, t => by rw [constructOn]; exact ensures_construct _ raw t; all_goals simp
  | .bool, t => by rw [constructOn]; exact ensures_construct _ raw t; all_goals simp

/-- The first member of a union that accepts a value makes one that conforms to the union. -/
theorem constructFirstOn_admits {resolve : ReferenceType → Edit ReferenceValue}
    (h : ∀ r t, (resolve r).Ensures t (fun v _ => (LeafType.reference r).Admits (.reference v))
      fun _ _ => True) :
    ∀ (types : List LeafType) (t : Tree), (constructFirstOn resolve raw types).Ensures t
      (fun made _ => ∀ v, made = some v → LeafType.AnyAdmits types v) fun _ _ => True
  | [], t => by
    rw [constructFirstOn]
    intro v hv
    cases hv
  | type :: types, t => by
    rw [constructFirstOn]
    simp only [LeafType.AnyAdmits]
    have hrest := constructFirstOn_admits h types
    refine Ensures.bind (I := fun made _ => ∀ v, made = some v → type.Admits v) ?_
      fun made t' hmade => ?_
    · rw [ensures_tryCatch]
      refine (constructOn_admits h type t).mono (fun _ _ hmade => hmade) fun _ t' _ => ?_
      intro v hv
      cases hv
    · cases made with
      | none => exact (hrest t').mono (fun _ _ hmade v hv => .inr (hmade v hv)) fun _ _ _ => trivial
      | some v =>
        intro w hw
        exact .inl (hmade w hw)

end

/-! ## Trees that conform -/

/-- What every leaf and every leaf-list of the tree holds, its type admits. -/
def Conforms (t : Tree) : Prop := ∀ id e, t.element? id = some e → e.content.Conforms

/-- Nothing in the empty tree fails to conform. -/
theorem conforms_empty : Conforms {} := by
  intro id e he
  simp [element?] at he

/-- Every content has come from one that conforms. -/
theorem Conforms.of_element (h : t.Conforms) (hfrom : ∀ {x e'}, t'.element? x = some e' →
    ∃ e, t.element? x = some e ∧ (e.content.Conforms → e'.content.Conforms)) : t'.Conforms := by
  intro x e' he'
  obtain ⟨e, he, hcontent⟩ := hfrom he'
  exact hcontent (h x e he)

/-- Values stand in the slots alone. -/
theorem Conforms.of_slots (h : t.Conforms) (hs : t'.slots = t.slots) : t'.Conforms :=
  h.of_element fun he => ⟨_, element?_congr hs _ ▸ he, fun hc => hc⟩

/-- A tree conforms with a changed element if its new content does. -/
theorem Conforms.modifyElement (h : t.Conforms) {f : Element → Element}
    (hf : ∀ e, t.element? id = some e → e.content.Conforms → (f e).content.Conforms) :
    (t.modifyElement id f).Conforms := by
  refine h.of_element fun {x e'} he' => ?_
  obtain ⟨e, he, ⟨rfl, rfl⟩ | ⟨-, rfl⟩⟩ := modifyElement_cases he'
  · exact ⟨e, he, hf e he⟩
  · exact ⟨e', he, fun hc => hc⟩

/-- A tree conforms with a new content that does. -/
theorem Conforms.withContent (h : t.Conforms) {content : Content} (hc : content.Conforms) :
    (t.withContent id content).Conforms := h.modifyElement fun _ _ _ => hc

/-- A change that keeps every content conforming keeps the tree so. -/
theorem conforms_update {f : Element → Element}
    (hf : ∀ e, e.content.Conforms → (f e).content.Conforms) :
    Leads (Keeping Conforms) (update id f) :=
  leads_update fun _ _ _ h => h.modifyElement fun e _ => hf e

/-- Lists hold no values themselves. -/
theorem conforms_relist (f : KeyedList → KeyedList) (e : Element) (h : e.content.Conforms) :
    (relist f e).content.Conforms := by
  unfold relist
  split
  · exact trivial
  · exact h

/-! ## Removing and unsetting -/

/-- Detaching a child changes no value. -/
theorem conforms_detach (e : Element) (name : String) (id : ElementId) (h : e.content.Conforms) :
    (e.detach name id).content.Conforms := by
  unfold Element.detach
  split
  · split
    · exact h
    · exact h
  · exact trivial
  · exact h

/-- Removing a subtree keeps all values conforming. -/
theorem conforms_removeSubtree (id : ElementId) : Leads (Keeping Conforms) (removeSubtree id) := by
  unfold removeSubtree get
  refine (leads_reading _).bind fun doomed => (leads_reading _).bind fun e =>
    leads_changing fun t h => ?_
  have hdetach : (t.detach e).Conforms := by
    unfold Tree.detach
    split
    · exact h.modifyElement fun p _ => conforms_detach p e.name e.id
    · exact h
  refine hdetach.of_element fun {x e'} he' => ⟨e', ?_, fun hc => hc⟩
  rw [(foldl_drop doomed _).1 x] at he'
  split at he'
  · cases he'
  · exact he'

/-- Clearing keeps all values conforming. -/
theorem conforms_clear (id : ElementId) : Leads (Keeping Conforms) (clear id) := by
  unfold clear get
  refine (leads_reading _).bind fun e => ?_
  split
  · refine (conforms_update (f := fun e => { e with content := .list _ }) fun _ _ => trivial).bind
      fun _ => leads_forM fun entry _ => conforms_removeSubtree entry
  · refine fun t => rel_bind (leads_ofExcept _ t) fun r t' hr => ?_
    rw [on_ofExcept, Prod.mk.injEq] at hr
    have hclear := Content.conforms_of_clear hr.1
    refine (Leads.bind (conforms_update fun _ _ => hclear) fun _ => leads_changing fun t h => ?_) t'
    exact h.of_slots (foldl_unregisterMember e e.content.members t).1

/-- Unsetting keeps all values conforming. -/
theorem conforms_unset (id : ElementId) : Leads (Keeping Conforms) (unset id) :=
  (leads_reading _).bind fun _ => leads_forM fun holder _ => conforms_clear holder

/-- A hook keeps all values conforming. -/
theorem conforms_runUnset (hook : Unset) : Leads (Keeping Conforms) (runUnset hook) := by
  cases hook with
  | contents id => exact conforms_unset id
  | subtree id => exact conforms_removeSubtree id

theorem conforms_runUnsets (hooks : List Unset) : Leads (Keeping Conforms) (runUnsets hooks) :=
  leads_forM fun hook _ => conforms_runUnset hook

/-- Marks are no values. -/
theorem conforms_markChanged (ids : List ElementId) : Leads (Keeping Conforms) (markChanged ids) :=
  leads_forM fun _ _ => conforms_update fun _ hc => hc

theorem conforms_restoreMarks (marks : List (ElementId × Bool)) :
    Leads (Keeping Conforms) (restoreMarks marks) :=
  leads_forM fun _ _ => conforms_update fun _ hc => hc

/-- Carrying out a plan keeps all values conforming. -/
theorem conforms_commit (p : Plan) : Leads (Keeping Conforms) (commit p) :=
  (conforms_runUnsets p.unsets).bind fun _ => conforms_markChanged p.marks

/-! ## Assigning -/

/-- Storing what a type admits in a leaf of that type, whatever has become of the leaf
since the type was read. -/
theorem Conforms.store {e : Element} {type : LeafType} {value : Option LeafValue}
    (h : t'.Conforms) (hs : t.Shrinks t') (he : t.element? id = some e)
    (htype : leafType e = .ok type) (hvalue : ∀ v, value = some v → type.Admits v) :
    (t'.modifyElement id (store value)).Conforms := by
  refine h.modifyElement fun e' he' hc => ?_
  obtain ⟨e₁, he₁, hshrinks⟩ := hs.element he'
  obtain rfl : e = e₁ := Option.some.inj (he.symm.trans he₁)
  unfold Tree.store
  split
  · next slot hslot =>
    obtain ⟨_, hcontent⟩ := Element.exists_leaf_of_bare hshrinks.bare.symm hslot
    have hdeclared : slot.type = type := by
      rw [leafType, hcontent] at htype
      exact Except.ok.inj htype
    intro v hv
    exact hdeclared ▸ hvalue v hv
  · exact hc

/-- Assigning keeps the tree conforming, however long the chain of references is. -/
theorem conforms_assignFrom (fuel : Nat) (id : ElementId) (raw : Value) :
    Leads (Given Conforms Shrinks) (assignFrom fuel id raw) := by
  refine leads_assignFrom_of_constructed (R := Given Conforms Shrinks)
    (fun {t t' fuel id raw p e type value} _ he htype hmade hled ht => ?_) fuel id raw
  obtain ⟨ht', hs⟩ := hled ht
  have hvalue : ∀ v, value = some v → type.Admits v :=
    (constructOn_admits (fun r => resolveWith_admits _ r id raw) type t).of_ok hmade
  have hshrinks := (frameStable_shrinks t).assignStable
  refine (Leads.bind (R := Keeping fun t₁ => t₁.Conforms ∧ t.Shrinks t₁) (fun t₁ h => ?_) fun _ =>
    Leads.bind (leads_update fun t₁ e₁ he₁ h => ?_) fun _ t₁ h => ?_) t' ⟨ht', hs⟩
  · exact ⟨conforms_runUnsets p.unsets t₁ h.1, hshrinks.runUnsets (fun _ _ => trivial) t₁ h.2⟩
  · have hstored := hshrinks.store id value t₁ h.2
    rw [on_update, element_eq_ok_iff.2 he₁] at hstored
    exact ⟨h.1.store h.2 he htype hvalue, hstored⟩
  · exact ⟨conforms_markChanged p.marks t₁ h.1, hshrinks.markChanged p.marks t₁ h.2⟩

/-- Assigning stores a value that the type of the leaf has made, through references too. -/
theorem conforms_setLeaf (id : ElementId) (raw : Value) :
    Leads (Keeping Conforms) (setLeaf id raw) :=
  fun t ht => ((leads_setLeaf conforms_assignFrom id raw) t ht).1

/-- The parts of a key are assigned as values of their leaves. -/
theorem conforms_assignKey (entry : ElementId) (parts : List (String × String)) :
    Leads (Keeping Conforms) (assignKey entry parts) := leads_assignKey conforms_setLeaf entry parts

/-! ## Editing items -/

/-- Editing items keeps all values conforming. -/
theorem conforms_editItem (id : ElementId) (op : ItemEdit) :
    Leads (Keeping Conforms) (editItem id op) := by
  refine leads_keeping_iff.2 fun t ht => ensures_editItem (fun _ => ht)
    fun {p e item content} _ he hedit => ?_
  refine ((conforms_commit p).keeps
    (ht.withContent (Content.conforms_of_edit (ht id e he) hedit))).mono
    (fun _ t₂ ht₂ => ⟨fun e₂ _ => ?_, fun _ => ht₂⟩) fun _ _ ht₂ => ht₂
  split
  · exact ht₂.of_slots (slots_register t₂ e₂ _ _)
  · exact ht₂.of_slots (slots_unregister t₂ e₂ _ _)

/-- Adding in bulk keeps all values conforming. -/
theorem conforms_extend (id : ElementId) (raws : List Value) :
    Leads (Keeping Conforms) (extend id raws) := by
  refine leads_keeping_iff.2 fun t ht => ensures_extend (fun _ => ht)
    fun {p e items content} _ he hextend => ?_
  refine ((conforms_commit p).keeps
    (ht.withContent (Content.conforms_of_extend (ht id e he) hextend))).mono
    (fun _ t₂ ht₂ => ⟨fun e₂ _ => ?_, fun _ => ⟨ht₂, ht₂⟩⟩) fun _ _ ht₂ => ht₂
  exact ht₂.of_slots (slots_foldl_registerMember e₂ items t₂)

/-! ## Building -/

/-- A content without data conforms. -/
theorem Content.IsInitial.conforms {content : Content} (h : content.IsInitial) :
    content.Conforms := by
  cases content with
  | leaf slot =>
    intro v hv
    have hnone : slot.value = none := h
    rw [hnone] at hv
    cases hv
  | leafList l =>
    intro item hitem
    have hnil : l.items = [] := h
    rw [hnil] at hitem
    cases hitem
  | container | list l | custom base => exact trivial

/-- Making an element with a conforming content keeps all values conforming. -/
theorem conforms_wrap {content : Content} (hc : content.Conforms) (spec : ElementSpec) :
    Leads (Keeping Conforms) (wrap content spec) := by
  refine leads_wrap fun t _ ht x e' he' => ?_
  obtain ⟨-, rfl⟩ | ⟨e, he, htrunk, -⟩ := made_cases he'
  · exact hc
  · rw [Element.content_of_trunk htrunk]
    exact ht x e he

/-- No value is constructed while a schema is built. -/
theorem buildStable_conforms (registers : Bool) :
    BuildStable (Keeping Conforms) registers (fun _ => True) fun _ => True where
  wrap := fun _ spec hinitial _ _ => conforms_wrap (Content.IsInitial.conforms hinitial) spec
  field := fun _ => conforms_update fun _ hc => hc
  remove := conforms_removeSubtree

/-- Building keeps all values conforming. -/
theorem conforms_build (schema : Schema) (spec : ElementSpec) :
    Leads (Keeping Conforms) (build schema spec) :=
  (buildStable_conforms spec.registers).build schema spec
    (schema.uses_of_forall (fun _ => trivial) fun _ => trivial) rfl

/-! ## Entries -/

/-- Assigning a key, or taking the entry back, keeps all values conforming. -/
theorem conforms_tryAssignKey (entry : ElementId) (parts : List (String × String))
    (before : List (ElementId × Bool)) :
    Leads (Keeping Conforms) (tryAssignKey entry parts before) :=
  (conforms_assignKey entry parts).tryCatch fun err => (conforms_removeSubtree entry).bind fun _ =>
    (conforms_restoreMarks before).bind fun _ => leads_throw err

/-- Putting an entry into a list changes no value. -/
theorem Conforms.enlisted (h : t.Conforms) (l : KeyedList) (key : String) (entry : ElementId) :
    (t.enlisted id l key entry).Conforms := by
  have hinsert : (t.modifyElement id (relist (·.insert key entry))).Conforms :=
    h.modifyElement fun e _ => conforms_relist _ e
  unfold Tree.enlisted
  split
  · exact hinsert.of_slots rfl
  · exact hinsert

/-- Adding an entry keeps all values conforming, whether it succeeds or is taken back. -/
theorem conforms_add (id : ElementId) (key : Option String) :
    Leads (Keeping Conforms) (add id key) := by
  refine leads_add (fun event h => h.of_slots rfl) (leads_keeping_iff.2 fun t ht =>
    ensures_addEntry (fun _ => ht) fun {p e l key' parts path} _ _ _ _ => ?_)
  refine ((conforms_build _ _).keeps ht).mono
    (fun entry t₁ ht₁ => ⟨fun _ _ => ht₁, fun before _ => ?_⟩) fun _ _ h => h
  refine ((conforms_tryAssignKey entry _ before).keeps ht₁).mono
    (fun _ t₂ ht₂ => ⟨fun _ => ht₂, fun _ _ => ?_⟩) fun _ _ h => h
  exact (conforms_commit p).keeps (ht₂.enlisted l key' entry)

/-- Deleting an entry keeps all values conforming. -/
theorem conforms_delete (id : ElementId) (key : String) :
    Leads (Keeping Conforms) (delete id key) := by
  refine leads_keeping_iff.2 fun t ht => ensures_delete (fun _ => ht) fun {e} _ => ?_
  have htold : (t.tell (.deleting e.path key)).Conforms := ht.of_slots rfl
  refine ⟨fun _ => htold, fun {p l entry rest} _ _ _ => ?_⟩
  have htaken : ((t.tell (.deleting e.path key)).withList id rest).Conforms :=
    htold.modifyElement fun e _ => conforms_relist _ e
  refine ((conforms_removeSubtree entry).keeps htaken).mono (fun _ t₂ ht₂ => ?_) fun _ _ h => h
  exact ((conforms_commit p).keeps ht₂).mono (fun _ _ h => h.of_slots rfl) fun _ _ h => h

/-! ## Sessions -/

/-- A content that is handed over to become an element conforms from the start. -/
def Typed (_ : Tree) : Operation → Prop
  | .wrap content _ _ => content.Conforms
  | _ => True

/-- An operation keeps the tree conforming, whether it succeeds or fails. -/
theorem conforms_after {op : Operation} (ht : t.Conforms) (hop : t.Typed op) :
    (op.after t).Conforms := by
  cases op with
  | wrap content spec => exact conforms_wrap hop spec t ht
  | instantiate schema spec =>
    exact leads_instantiate (fun event h => h.of_slots rfl) (conforms_build schema spec) t ht
  | set id active => exact ((leads_reading _).bind fun p => conforms_commit p) t ht
  | setLeaf id raw => exact conforms_setLeaf id raw t ht
  | editItem id edit => exact conforms_editItem id edit t ht
  | extend id raws => exact conforms_extend id raws t ht
  | unset id => exact conforms_unset id t ht
  | removeSubtree id => exact conforms_removeSubtree id t ht
  | add id key => exact conforms_add id key t ht
  | delete id key => exact conforms_delete id key t ht

/-- All values conform in every tree that typed operations lead to. -/
theorem conforms_of_reaches (h : Reaches Typed {} t) : t.Conforms :=
  h.keeps (fun _ _ ht hop => conforms_after ht hop) conforms_empty

/-- **Stored values satisfy their types**: in every session, whatever a leaf holds its type
admits, and every item of a leaf-list is the raw form of a value that one of the allowed
types admits. -/
theorem values_conform (h : Reaches Typed {} t) {e : Element} (he : t.element? id = some e) :
    (∀ slot v, e.content = .leaf slot → slot.value = some v → slot.type.Admits v) ∧
      ∀ l, e.content = .leafList l → ∀ item ∈ l.items,
        ∃ type ∈ l.type.allowed, ∃ v, type.Admits v ∧ v.toValue = item := by
  have hc := conforms_of_reaches h id e he
  constructor
  · intro slot v hslot hv
    rw [hslot] at hc
    exact hc v hv
  · intro l hl item hitem
    rw [hl] at hc
    exact hc item hitem

/-! ## A session -/

/-- A limit with two digits, an alias of it, and tags that are small numbers or names. -/
def meter : Blueprint :=
  .container [⟨"limit", none, .leaf (.decimal ⟨2, by decide⟩ {})⟩,
    ⟨"alias", none, .leaf (.union [.bool, .union [.reference { path := "../limit" }]])⟩,
    ⟨"tag", none, .leafList ⟨[.uint8, .text {}]⟩⟩]

/-- A meter whose limit was set through the alias, and which got a tag. -/
def metered : Tree :=
  let made := (Operation.instantiate meter { name := "meter", registers := true }).after {}
  let limited := (Operation.setLeaf ⟨2⟩ (.text "1.255")).after made
  (Operation.editItem ⟨3⟩ (.append (.text "7")) trivial).after limited

theorem reaches_metered : Reaches Typed {} metered := by
  have hstart : Reaches Typed {} {} := .refl
  have hmade := hstart.andThen (.instantiate meter { name := "meter", registers := true }) trivial
  have hlimited := hmade.andThen (.setLeaf ⟨2⟩ (.text "1.255")) trivial
  exact hlimited.andThen (.editItem ⟨3⟩ (.append (.text "7")) trivial) trivial

/-- The limit was rounded to its digits on the way through the alias, and the tag became a
number. -/
theorem values_conform_metered :
    (∃ e slot v, metered.element? ⟨1⟩ = some e ∧ e.content = .leaf slot ∧ slot.value = some v ∧
      v.toValue.toText = "1.26" ∧ slot.type.Admits v) ∧
    ∃ e l, metered.element? ⟨3⟩ = some e ∧ e.content = .leafList l ∧ l.items.length = 1 ∧
      ∀ item ∈ l.items, ∃ type ∈ l.type.allowed, ∃ v, type.Admits v ∧ v.toValue = item := by
  have hlimit : (metered.element? ⟨1⟩).any (fun e => (leafType e).toOption.isSome &&
      e.content.supplied.toText == "1.26") = true := by decide +kernel
  have htag : (metered.element? ⟨3⟩).any (·.content.members.length == 1) = true := by decide +kernel
  constructor
  · obtain ⟨e, he, hlimit⟩ := (Option.any_eq_true _ _).1 hlimit
    obtain ⟨hleaf, htext⟩ := Bool.and_eq_true_iff.1 hlimit
    cases hslot : e.content with
    | leaf slot =>
      rw [hslot, beq_iff_eq, Content.supplied, LeafSlot.supplied] at htext
      cases hv : slot.value with
      | none =>
        rw [hv] at htext
        exact absurd htext (by decide)
      | some v =>
        rw [hv] at htext
        exact ⟨e, slot, v, he, hslot, hv, htext,
          (values_conform reaches_metered he).1 slot v hslot hv⟩
    | _ =>
      rw [leafType, hslot] at hleaf
      cases hleaf
  · obtain ⟨e, he, htag⟩ := (Option.any_eq_true _ _).1 htag
    cases hl : e.content with
    | leafList l =>
      rw [hl, beq_iff_eq] at htag
      exact ⟨e, l, he, hl, htag, (values_conform reaches_metered he).2 l hl⟩
    | _ =>
      rw [hl] at htag
      cases htag

end DataTree.Tree
