import DataTree.Proofs.Entries
import DataTree.Proofs.Mirror.Basic

/-!
# DataTree.Proofs.Mirror.Operations

Every operation keeps the registry a mirror of the tree.

Most steps call for no other registrations than before.  Where items come and go,
or elements, the registry is changed with them; an operation that fails before that
has not changed them either.
-/

namespace DataTree

open Edit Outcome

/-! ## Contents and elements -/

/-- The items of a plain content are proper values. -/
theorem Content.Plain.proper {c : Content} (h : c.Plain) : ∀ v ∈ c.members, v.Proper := by
  cases c with
  | leafList l => exact h
  | _ => exact fun v hv => by cases hv

/-- Clearing a plain content leaves a plain one without items. -/
theorem Content.plain_of_clear {c c' : Content} {vs : List Value} (h : c.clear = .ok (vs, c'))
    (hc : c.Plain) : c'.Plain ∧ c'.members = [] := by
  cases c with
  | leaf slot =>
    simp only [Content.clear, Except.ok.injEq, Prod.mk.injEq] at h
    rw [← h.2]
    exact ⟨trivial, rfl⟩
  | leafList l =>
    simp only [Content.clear, LeafList.clear, Except.ok.injEq, Prod.mk.injEq] at h
    rw [← h.2]
    exact ⟨fun v hv => (by cases hv), rfl⟩
  | container => simp [Content.clear] at h
  | list l => simp [Content.clear] at h
  | custom c => exact hc.elim

/-- Items come and go one at a time. -/
theorem Content.plain_of_edit {c c' : Content} {op : ItemEdit} {v : Value}
    (h : c.edit op = .ok (v, c')) (hc : c.Plain) (hop : op.Proper) :
    c'.Plain ∧ v.Proper ∧
      if op.adds then c'.members.Perm (v :: c.members) else c.members.Perm (v :: c'.members) := by
  cases c with
  | leafList l =>
    rw [Content.edit] at h
    obtain ⟨⟨w, l'⟩, hl, h⟩ := map_eq_ok.1 h
    obtain ⟨rfl, rfl⟩ := Prod.mk.inj h
    obtain ⟨hw, hl'⟩ := LeafList.proper_of_edit hop hc hl
    exact ⟨hl', hw, LeafList.perm_of_edit hl⟩
  | custom c => exact hc.elim
  | leaf slot => simp [Content.edit] at h
  | container => simp [Content.edit] at h
  | list l => simp [Content.edit] at h

/-- Extending a plain content puts the new items behind the old ones. -/
theorem Content.plain_of_extend {c c' : Content} {raws vs : List Value}
    (h : c.extend raws = .ok (vs, c')) (hc : c.Plain) (hraws : ∀ raw ∈ raws, raw.Proper) :
    c'.Plain ∧ (∀ v ∈ vs, v.Proper) ∧ c'.members = c.members ++ vs := by
  cases c with
  | leafList l =>
    rw [Content.extend] at h
    obtain ⟨⟨ws, l'⟩, hl, h⟩ := map_eq_ok.1 h
    obtain ⟨rfl, rfl⟩ := Prod.mk.inj h
    obtain ⟨hitems, hproper⟩ := LeafList.items_of_extend hl
    refine ⟨fun v hv => ?_, hproper hraws, hitems⟩
    rw [hitems] at hv
    obtain hv | hv := List.mem_append.1 hv
    · exact hc v hv
    · exact hproper hraws v hv
  | custom c => exact hc.elim
  | leaf slot => simp [Content.extend] at h
  | container => simp [Content.extend] at h
  | list l => simp [Content.extend] at h

/-- Taking a child out calls for no other registrations. -/
theorem Element.quiet_detach (e : Element) (name : String) (id : ElementId) :
    e.Quiet (e.detach name id) := by
  unfold Element.detach
  split
  · split
    · exact ⟨rfl, rfl, rfl, rfl, rfl, fun h => h⟩
    · exact .refl e
  · next l hl =>
    refine ⟨rfl, rfl, rfl, rfl, by rw [hl]; rfl, fun h => ?_⟩
    rw [hl] at h
    exact h
  · exact .refl e

theorem Element.quiet_store (value : Option LeafValue) (e : Element) :
    e.Quiet (Tree.store value e) := by
  unfold Tree.store
  split
  · next slot hl => exact ⟨rfl, rfl, rfl, rfl, by rw [hl]; rfl, fun _ => trivial⟩
  · exact .refl e

namespace Tree

variable {t t' : Tree} {id : ElementId} {e : Element}

/-! ## Dropping registrations -/

/-- Unregistering an item drops its registration once. -/
theorem registry_unregisterMember (hr : e.registers = true) (v : Value) :
    (t.unregisterMember e v).registry
      = t.registry.unregisterTarget (e.memberPath v) (.member e.id v) := by
  rw [unregisterMember, registry_unregister, if_pos hr]

/-- Items are dropped one by one. -/
theorem lists_foldl_unregisterMember (hr : e.registers = true) {items : List Value}
    {regs : List Registration} (hp : ∀ v ∈ items, v.Proper)
    (h : t.registry.Lists (items.map e.itemRegistration ++ regs)) :
    (items.foldl (fun t v => t.unregisterMember e v) t).registry.Lists regs := by
  induction items generalizing t with
  | nil => exact h
  | cons v items ih =>
    rw [List.foldl_cons]
    refine ih (fun w hw => hp w (List.mem_cons_of_mem v hw)) ?_
    rw [registry_unregisterMember hr]
    exact h.unregister (hp v List.mem_cons_self)

/-- Dropping an element drops what it called for. -/
theorem mirrored_drop (h : Mirrored t) (id : ElementId) : Mirrored (t.drop id) := by
  cases he : t.element? id with
  | none =>
    rw [drop_of_none he]
    exact h
  | some e =>
    have hplain := h.plain he
    refine ⟨?_, fun {x xe} hx => h.plain (element?_drop_eq_some_iff.1 hx).2⟩
    have hlists := h.lists.perm (registrations_of_removed he (t.element?_drop id))
    have hfold := lists_foldl_unregisterMember (t := t.vacate id) hplain.registers
      (Content.Plain.proper hplain.content) (hlists.perm List.perm_middle.symm)
    have hself := hfold.unregister trivial
    rw [hplain.id_eq] at hself
    rw [registry_drop he, if_pos hplain.registers]
    exact hself

/-- So does dropping several. -/
theorem mirrored_foldl_drop (doomed : List ElementId) (h : Mirrored t) :
    Mirrored (doomed.foldl drop t) := by
  induction doomed generalizing t with
  | nil => exact h
  | cons id doomed ih => exact ih (mirrored_drop h id)

/-- Removing a subtree drops what its elements called for. -/
theorem mirrored_removeSubtree (id : ElementId) : Leads (Keeping Mirrored) (removeSubtree id) := by
  unfold removeSubtree get
  refine (leads_reading _).bind fun doomed => (leads_reading _).bind fun e => ?_
  refine leads_changing fun t h => mirrored_foldl_drop doomed (h.quiet ?_)
  unfold detach
  split
  · exact quiet_modifyElement fun p _ => Element.quiet_detach p e.name e.id
  · exact refl_of Quiet t

/-! ## Items -/

/-- Elements call for registrations by the slots alone. -/
theorem registrations_of_slots (h : t'.slots = t.slots) : t'.registrations = t.registrations := by
  have hel : t'.element? = t.element? := funext fun x => element?_congr h x
  rw [registrations, registrations, ids, ids, hel, h]

/-- What an element calls for may change while the others call for the same. -/
theorem registrations_modifyElement (he : t.element? id = some e) (f : Element → Element) :
    ∃ rest, t.registrations.Perm (e.registrations ++ rest) ∧
      (t.modifyElement id f).registrations.Perm ((f e).registrations ++ rest) := by
  refine ⟨(t.drop id).registrations, registrations_of_removed he (t.element?_drop id),
    registrations_of_removed (element?_modifyElement_self he) fun x => ?_⟩
  rw [element?_drop]
  by_cases hx : x = id
  · rw [if_pos hx, if_pos hx]
  · rw [if_neg hx, if_neg hx, element?_modifyElement_of_ne hx]

/-- An element may change into a plain one. -/
theorem plain_modifyElement (h : ∀ {id e}, t.element? id = some e → IsPlain id e)
    (he : t.element? id = some e) {f : Element → Element} (hf : IsPlain id (f e)) {x : ElementId}
    {xe : Element} (hx : (t.modifyElement id f).element? x = some xe) : IsPlain x xe := by
  by_cases hxi : x = id
  · subst hxi
    rw [element?_modifyElement_self he] at hx
    rw [← Option.some.inj hx]
    exact hf
  · rw [element?_modifyElement_of_ne hxi] at hx
    exact h hx

/-- Clearing drops what was called for by the items and entries that it takes. -/
theorem mirrored_clear (id : ElementId) : Leads (Keeping Mirrored) (clear id) := by
  refine leads_keeping_iff.2 fun t h => ?_
  rw [clear, ensures_get_bind]
  refine ⟨fun e he => ?_, fun _ => h⟩
  have hplain := h.plain he
  split
  · next l hl =>
    rw [ensures_bind, ensures_update]
    refine ⟨fun _ _ => ?_, fun _ => h⟩
    have hq : t.Quiet (t.modifyElement id fun e =>
        { e with content := .list { l with members := [] } }) := by
      refine quiet_modifyElement fun e' he' => ?_
      obtain rfl : e = e' := Option.some.inj (he.symm.trans he')
      refine ⟨rfl, rfl, rfl, rfl, by rw [hl]; rfl, fun hc => ?_⟩
      rw [hl] at hc
      exact hc
    exact (leads_forM fun entry _ => mirrored_removeSubtree entry).keeps (h.quiet hq)
  · rw [ensures_ofExcept_bind]
    refine ⟨fun r hr => ?_, fun _ _ => h⟩
    obtain ⟨items, cleared⟩ := r
    obtain ⟨hcleared, hnone⟩ := Content.plain_of_clear hr hplain.content
    rw [ensures_bind, ensures_update]
    refine ⟨fun _ _ => ?_, fun _ => h⟩
    let f : Element → Element := fun e => { e with content := cleared }
    obtain ⟨rest, hbefore, hafter⟩ := registrations_modifyElement he f
    obtain ⟨hslots, -, -⟩ := foldl_unregisterMember e e.content.members (t.modifyElement id f)
    refine ⟨?_, fun {x xe} hx => ?_⟩
    · have hlists := (h.lists.perm hbefore).perm List.perm_middle.symm
      have hfold := lists_foldl_unregisterMember (t := t.modifyElement id f) hplain.registers
        (Content.Plain.proper hplain.content) hlists
      rw [registrations_of_slots hslots]
      have hregs : (f e).registrations = [(e.path, .element e.id)] := by
        simp [f, Element.registrations, hnone]
      rw [hregs] at hafter
      exact hfold.perm hafter.symm
    · rw [element?_congr hslots] at hx
      exact plain_modifyElement h.plain he
        ⟨hplain.id_eq, hplain.registers, hplain.choices, hcleared⟩ hx

/-- So does unsetting. -/
theorem mirrored_unset (id : ElementId) : Leads (Keeping Mirrored) (unset id) :=
  (leads_reading _).bind fun _ => leads_forM fun holder _ => mirrored_clear holder

/-! ## Assigning -/

/-- Without choices there is nothing to unset. -/
theorem unsets_of_planFrom (h : ∀ {id e}, t.element? id = some e → e.choices = {}) {fuel : Nat}
    {active : Option Case} {p : Plan} (hp : t.planFrom fuel id active = .ok p) : p.unsets = [] := by
  induction fuel generalizing id active p with
  | zero => cases hp
  | succ fuel ih =>
    obtain ⟨e, hooks, he, hh, hp⟩ := planFrom_succ_eq_ok.1 hp
    have hnone : hooks = [] := by
      cases active with
      | none => exact (Except.ok.inj hh).symm
      | some c =>
        rw [siblingHooks, h he] at hh
        exact (Except.ok.inj hh).symm
    obtain ⟨-, rfl⟩ | ⟨parent, above, -, ha, rfl⟩ := hp
    · exact hnone
    · simp [hnone, ih ha]

/-- Without choices assigning keeps the registry in step. -/
theorem assignStable_mirrored : AssignStable Mirrored fun _ => False where
  plan := fun h hp hook hm => by
    rw [unsets_of_planFrom (fun he => (h.plain he).choices) hp] at hm
    cases hm
  unset := fun hf => hf.elim
  store := fun _ value t h => h.quiet (quiet_update (Element.quiet_store value) t)
  mark := fun _ changed t h => h.quiet (quiet_update
    (f := fun e => { e with changed }) (fun _ => ⟨rfl, rfl, rfl, rfl, rfl, fun h => h⟩) t)

/-! ## Changing items -/

/-- Where there are no choices, carrying out a plan only marks, and cannot fail. -/
theorem ensures_commit_marking {R : Tree → Tree → Prop}
    (hmark : ∀ ids, Leads R (markChanged ids)) (t' : Tree)
    (h : ∀ {id e}, t.element? id = some e → e.choices = {}) {active : Option Case} {p : Plan}
    (hp : t.plan id active = .ok p) (hsome : ∀ x, (t'.element? x).isSome = (t.element? x).isSome) :
    (commit p).Ensures t' (fun _ => R t') fun _ _ => False := by
  have hlive : ∀ x ∈ p.marks, (t'.element? x).isSome := by
    intro x hx
    obtain ⟨e, he⟩ := exists_of_mem_marks hp hx
    rw [hsome, he]
    rfl
  rw [commit, unsets_of_planFrom h hp]
  show (markChanged p.marks).Ensures t' _ _
  exact ((ensures_markChanged hlive).and ((hmark p.marks).ensures t')).mono
    (fun _ _ h => h.2) fun _ _ h => h.1

/-- Items are registered at the same paths. -/
theorem Quiet.itemRegistration {e e' : Element} (h : e.Quiet e') :
    e'.itemRegistration = e.itemRegistration := by
  funext v
  simp [Element.itemRegistration, Element.memberPath, h.id, h.path]

/-- Items in another order, and one more of them. -/
theorem perm_registrations (e : Element) (items : List Value) {c : Content}
    (hperm : c.members.Perm (items ++ e.content.members)) (rest : List Registration) :
    ({ e with content := c }.registrations ++ rest).Perm
      (items.map e.itemRegistration ++ (e.registrations ++ rest)) := by
  have hmap := ((hperm.map e.itemRegistration).cons (e.path, .element e.id)).append_right rest
  rw [List.map_append] at hmap
  refine hmap.trans ?_
  rw [← List.cons_append, ← List.append_assoc]
  exact (List.perm_middle.symm).append_right rest

/-- An item that was taken away is no longer registered. -/
theorem mirrored_unregisterMember (hplain : ∀ {x xe}, t.element? x = some xe → IsPlain x xe)
    (he : t.element? id = some e) {v : Value} (hv : v.Proper)
    (hl : t.registry.Lists (e.itemRegistration v :: t.registrations)) :
    Mirrored (t.unregisterMember e v) := by
  have htarget : (Target.member e.id v).Proper := hv
  have hslots : (t.unregisterMember e v).slots = t.slots := slots_unregister t e _ _
  refine ⟨?_, fun hx => hplain (by rw [← hx, element?_congr hslots])⟩
  rw [registry_unregisterMember (hplain he).registers, registrations_of_slots hslots]
  exact hl.unregister htarget

/-- Items that were added are registered one after another.  The ones that are still to
come are what the registry lacks. -/
structure Owes (id : ElementId) (e : Element) (items : List Value) (t : Tree) : Prop where
  plain : ∀ {x xe}, t.element? x = some xe → IsPlain x xe
  element : ∃ e', t.element? id = some e' ∧ e'.itemRegistration = e.itemRegistration
  lists : ∃ regs, t.registry.Lists regs ∧
    t.registrations.Perm (items.map e.itemRegistration ++ regs)

/-- Registering an item pays for it. -/
theorem Owes.registerMember {v : Value} {items : List Value} (h : Owes id e (v :: items) t)
    (hv : v.Proper) {e' : Element} (he : t.element? id = some e') :
    Owes id e items (t.registerMember e' v) := by
  obtain ⟨e₁, he₁, hreg⟩ := h.element
  obtain rfl : e' = e₁ := Option.some.inj (he.symm.trans he₁)
  have hregister : (t.registerMember e' v).registry
      = t.registry.register (e'.memberPath v) (.member e'.id v) := by
    rw [Tree.registerMember, register, if_pos (h.plain he).registers]
  have hslots : (t.registerMember e' v).slots = t.slots := slots_register t e' _ _
  constructor
  case plain => exact fun hx => h.plain (by rw [← hx, element?_congr hslots])
  case element => exact ⟨e', by rw [element?_congr hslots, he], hreg⟩
  case lists =>
    obtain ⟨regs, hl, hp⟩ := h.lists
    have htarget : (Target.member e'.id v).Proper := hv
    refine ⟨_, hregister ▸ hl.register htarget, ?_⟩
    rw [registrations_of_slots hslots]
    refine hp.trans ?_
    rw [← hreg, List.map_cons]
    exact List.perm_middle.symm

/-- When nothing is owed any more the registry is in step. -/
theorem Owes.mirrored (h : Owes id e [] t) : Mirrored t := by
  obtain ⟨regs, hl, hp⟩ := h.lists
  exact ⟨hl.perm hp.symm, h.plain⟩

/-- An operation on an item changes the registry along with the items. -/
theorem mirrored_editItem (id : ElementId) {op : ItemEdit} (hop : op.Proper) :
    Leads (Keeping Mirrored) (editItem id op) := by
  refine leads_keeping_iff.2 fun t h => ?_
  rw [editItem, ensures_reading_bind]
  refine ⟨fun p hp => ?_, fun _ _ => h⟩
  rw [ensures_get_bind]
  refine ⟨fun e he => ?_, fun _ => h⟩
  rw [ensures_ofExcept_bind]
  refine ⟨fun r hr => ?_, fun _ _ => h⟩
  obtain ⟨item, content⟩ := r
  have hplain := h.plain he
  obtain ⟨hcontent, hitem, hperm⟩ := Content.plain_of_edit hr hplain.content hop
  rw [ensures_bind, ensures_update]
  refine ⟨fun _ _ => ?_, fun _ => h⟩
  let f : Element → Element := fun e => { e with content }
  have hf : IsPlain id (f e) := ⟨hplain.id_eq, hplain.registers, hplain.choices, hcontent⟩
  obtain ⟨rest, hbefore, hafter⟩ := registrations_modifyElement he f
  have hcommit := ensures_commit_marking quiet_markChanged (t.modifyElement id f)
    (fun he => (h.plain he).choices) hp (isSome_element?_modifyElement t id f)
  refine (hcommit.mono (fun _ _ hq => hq) fun _ _ hf => hf.elim).bind fun _ t₂ hq => ?_
  rw [ensures_get_bind]
  refine ⟨fun e₂ he₂ => ?_, fun hnone => ?_⟩
  · obtain ⟨e₁, he₁, hqe⟩ := hq.element he₂
    rw [element?_modifyElement_self he] at he₁
    obtain rfl := Option.some.inj he₁
    have hplain₂ : ∀ {x xe}, t₂.element? x = some xe → IsPlain x xe :=
      fun hx => hq.plain (fun hx => plain_modifyElement h.plain he hf hx) hx
    have hreg : e₂.itemRegistration = (f e).itemRegistration := Quiet.itemRegistration hqe
    have hlists : t₂.registry.Lists (e.registrations ++ rest) := by
      rw [hq.registry]
      exact h.lists.perm hbefore
    have hcalls := hq.registrations.trans hafter
    rw [ensures_changing_bind]
    by_cases hadds : op.adds = true
    · rw [if_pos hadds] at hperm ⊢
      have howes : Owes id (f e) [item] t₂ := ⟨hplain₂, ⟨e₂, he₂, hreg⟩, e.registrations ++ rest,
        hlists, hcalls.trans (perm_registrations e [item] hperm rest)⟩
      exact (howes.registerMember hitem he₂).mirrored
    · rw [if_neg hadds] at hperm ⊢
      refine mirrored_unregisterMember hplain₂ he₂ hitem (hlists.perm ?_)
      rw [hreg]
      refine (perm_registrations (f e) [item] hperm rest).trans ?_
      exact hcalls.symm.cons _
  · have hsome := hq.isSome id
    rw [hnone, isSome_element?_modifyElement, he] at hsome
    cases hsome

/-- Adding in bulk registers every new item once. -/
theorem mirrored_extend (id : ElementId) {raws : List Value} (hraws : ∀ raw ∈ raws, raw.Proper) :
    Leads (Keeping Mirrored) (extend id raws) := by
  refine leads_keeping_iff.2 fun t h => ?_
  rw [extend, ensures_reading_bind]
  refine ⟨fun p hp => ?_, fun _ _ => h⟩
  rw [ensures_get_bind]
  refine ⟨fun e he => ?_, fun _ => h⟩
  rw [ensures_ofExcept_bind]
  refine ⟨fun r hr => ?_, fun _ _ => h⟩
  obtain ⟨items, content⟩ := r
  have hplain := h.plain he
  obtain ⟨hcontent, hitems, hmembers⟩ := Content.plain_of_extend hr hplain.content hraws
  rw [ensures_bind, ensures_update]
  refine ⟨fun _ _ => ?_, fun _ => h⟩
  let f : Element → Element := fun e => { e with content }
  have hf : IsPlain id (f e) := ⟨hplain.id_eq, hplain.registers, hplain.choices, hcontent⟩
  obtain ⟨rest, hbefore, hafter⟩ := registrations_modifyElement he f
  have hcommit := ensures_commit_marking quiet_markChanged (t.modifyElement id f)
    (fun he => (h.plain he).choices) hp (isSome_element?_modifyElement t id f)
  refine (hcommit.mono (fun _ _ hq => hq) fun _ _ hf => hf.elim).bind fun _ t₂ hq => ?_
  have hmem : (f e).content.members.Perm (items ++ e.content.members) := by
    rw [show (f e).content.members = e.content.members ++ items from hmembers]
    exact List.perm_append_comm
  have howes : Owes id (f e) items t₂ := by
    constructor
    case plain => exact fun hx => hq.plain (fun hx => plain_modifyElement h.plain he hf hx) hx
    case element =>
      have hsome := hq.isSome id
      rw [isSome_element?_modifyElement, he] at hsome
      obtain ⟨e₂, he₂⟩ := Option.isSome_iff_exists.1 hsome
      obtain ⟨e₁, he₁, hqe⟩ := hq.element he₂
      rw [element?_modifyElement_self he] at he₁
      obtain rfl := Option.some.inj he₁
      exact ⟨e₂, he₂, Quiet.itemRegistration hqe⟩
    case lists =>
      refine ⟨e.registrations ++ rest, ?_, ?_⟩
      · rw [hq.registry]
        exact h.lists.perm hbefore
      · exact (hq.registrations.trans hafter).trans (perm_registrations e items hmem rest)
  have hloop : (items.forM fun item => do
      let e ← get id
      Edit.changing fun t => t.registerMember e item).Ensures t₂
      (fun _ => Mirrored) fun _ _ => False := by
    refine (ensures_forM (I := fun vs t => Owes id (f e) vs t ∧ ∀ v ∈ vs, v.Proper)
      (fun v vs t hinv => ?_) ⟨howes, hitems⟩).mono (fun _ _ hd => hd.1.mirrored) fun _ _ hf => hf
    obtain ⟨howes, hproper⟩ := hinv
    rw [ensures_get_bind]
    refine ⟨fun e' he' => ?_, fun hnone => ?_⟩
    · exact ⟨howes.registerMember (hproper v List.mem_cons_self) he',
        fun w hw => hproper w (List.mem_cons_of_mem v hw)⟩
    · obtain ⟨e', he', -⟩ := howes.element
      rw [hnone] at he'
      cases he'
  exact (hloop.mono (fun _ _ hd => hd) fun _ _ hf => hf.elim).bind fun _ _ hd => hd

/-! ## Building and entries -/

/-- An element that is made without items is registered itself. -/
theorem mirrored_wrap {content : Content} {spec : ElementSpec} (hc : content.Plain)
    (hm : content.members = []) (hr : spec.registers = true) :
    Leads (Keeping Mirrored) (wrap content spec) := by
  refine leads_wrap fun t _ h => ?_
  have hlink : t.Quiet (t.link spec) := by
    unfold link
    split
    · refine quiet_modifyElement fun p _ => ?_
      unfold Element.gain
      split
      · exact ⟨rfl, rfl, rfl, rfl, rfl, fun h => h⟩
      · exact .refl p
    · exact refl_of Quiet t
  have h₁ := h.quiet hlink
  have hid : (⟨t.slots.size⟩ : ElementId) = ⟨(t.link spec).slots.size⟩ := by rw [size_slots_link]
  generalize ht : t.link spec = t₁ at h₁ hid
  have hnew : IsPlain ⟨t₁.slots.size⟩ (t.newElement content spec) := ⟨hid, hr, rfl, hc⟩
  have hregs : (t.newElement content spec).registrations
      = [((t.newElement content spec).path, .element (t.newElement content spec).id)] := by
    have hmembers : (t.newElement content spec).content.members = [] := hm
    rw [Element.registrations, hmembers, List.map_nil]
  generalize t.newElement content spec = e at hnew hregs
  have hel := t₁.element?_place e
  have hnone : t₁.element? ⟨t₁.slots.size⟩ = none := element?_eq_none_of_size_le (Nat.le_refl _)
  refine ⟨?_, fun {x xe} hx => ?_⟩
  · have hself : (t₁.place e).element? ⟨t₁.slots.size⟩ = some e := by rw [hel, if_pos rfl]
    have hperm : (t₁.place e).registrations.Perm (e.registrations ++ t₁.registrations) := by
      refine registrations_of_removed hself fun x => ?_
      rw [hel]
      by_cases hx : x = ⟨t₁.slots.size⟩
      · rw [if_pos hx, hx, hnone]
      · rw [if_neg hx, if_neg hx]
    have hreg : (t₁.place e).registry = t₁.registry.register e.path (.element e.id) := by
      rw [registry_place, registry_register, if_pos hnew.registers]
    have htarget : (Target.element e.id).Proper := trivial
    rw [hregs] at hperm
    rw [hreg]
    exact (h₁.lists.register htarget).perm hperm.symm
  · obtain ⟨rfl, rfl⟩ | hx := place_cases hx
    · exact hnew
    · exact h₁.plain hx

mutual

theorem uses_of_choiceFree : ∀ {schema : Schema}, schema.ChoiceFree →
    schema.Uses (· = none) fun l => Schema.AllChoiceFree l.entry
  | .leaf _ _, _ => by rw [Schema.Uses]; exact trivial
  | .leafList _ _, _ => by rw [Schema.Uses]; exact trivial
  | .container children _, h => by
    rw [Schema.ChoiceFree] at h
    rw [Schema.Uses]
    exact allUse_of_choiceFree h
  | .list ⟨_, entry, _⟩ _, h => by
    rw [Schema.ChoiceFree] at h
    rw [Schema.Uses]
    exact h

theorem allUse_of_choiceFree : ∀ {children : List (Child Schema)}, Schema.AllChoiceFree children →
    Schema.AllUse (· = none) (fun l => Schema.AllChoiceFree l.entry) children
  | [], _ => by rw [Schema.AllUse]; exact trivial
  | ⟨_, case, node⟩ :: rest, h => by
    rw [Schema.AllChoiceFree] at h
    rw [Schema.AllUse]
    exact ⟨h.1, uses_of_choiceFree h.2.1, allUse_of_choiceFree h.2.2⟩

end

/-- Building a schema without choices registers every element that it makes. -/
theorem buildStable_mirrored : BuildStable (Keeping Mirrored) true (· = none)
    fun l => Schema.AllChoiceFree l.entry where
  wrap := fun content spec hc hl hr => by
    refine mirrored_wrap ?_ ?_ hr
    · cases content with
      | leafList l => exact fun v hv => (by rw [hc] at hv; cases hv)
      | list l => exact hl l rfl
      | leaf slot => trivial
      | container => trivial
      | custom c => exact hc
    · cases content with
      | leafList l => exact hc
      | custom c => exact hc.elim
      | _ => rfl
  field := fun hcase t h => h.quiet (quiet_update (fun e => by
    subst hcase
    exact ⟨rfl, rfl, rfl, rfl, rfl, fun h => h⟩) t)
  remove := mirrored_removeSubtree

/-- Adding and deleting entries keep the registry in step. -/
theorem entryStable_mirrored : EntryStable Mirrored fun _ => False where
  toAssignStable := assignStable_mirrored
  build := fun {t id e l path} h he hl => by
    have hplain := h.plain he
    have hentry := hplain.content
    rw [hl] at hentry
    refine buildStable_mirrored.build _ _ ?_ hplain.registers t h
    rw [Schema.Uses]
    exact allUse_of_choiceFree hentry
  remove := mirrored_removeSubtree
  members := fun {t id f} h hschema => by
    refine h.quiet ?_
    rw [updateList, on_update, element]
    cases he : t.element? id with
    | none => exact refl_of Quiet t
    | some e =>
      refine quiet_modifyElement fun e' he' => ?_
      obtain rfl : e = e' := Option.some.inj (he.symm.trans he')
      split
      · next l hl =>
        refine ⟨rfl, rfl, rfl, rfl, by rw [hl]; rfl, fun hc => ?_⟩
        have hs := hschema e l he hl
        rw [hl] at hc
        rw [Content.Plain, hs]
        exact hc
      · exact .refl e
  makeKeys := fun h => h.quiet ⟨rfl, fun _ => rfl, fun he => ⟨_, he, .refl _⟩⟩
  tell := fun _ h => h.quiet ⟨rfl, fun _ => rfl, fun he => ⟨_, he, .refl _⟩⟩

end Tree

end DataTree
