import DataTree.Proofs.Choice.Basic
import DataTree.Proofs.Rollback.Accounts

/-!
# DataTree.Proofs.Rollback.Saves

The registrations of old elements.

What happens to new elements, those in slots from `n` on, does not concern the
registrations of the others.  Unsetting old elements may; but then it takes an element
away, or items or entries (`Saves`).  The value of a leaf is not registered, so assigning
to leaves saves registrations as well, be they old or new and wherever references lead
(`saves_assignFrom`).
-/

namespace DataTree

open Edit

namespace Content

/-- Whether a content has items or entries. -/
def isStocked : Content → Bool
  | .leafList l => !l.isEmpty
  | .list l => !l.isEmpty
  | _ => false

/-- Without items and entries there is nothing registered on behalf of a content. -/
theorem members_of_not_isStocked {c : Content} (h : c.isStocked = false) : c.members = [] := by
  cases c with
  | leafList l => simpa [isStocked, LeafList.isEmpty, members] using h
  | _ => rfl

/-- A cleared content has nothing left. -/
theorem isStocked_of_clear {c c' : Content} {vs : List Value} (h : c.clear = .ok (vs, c')) :
    c'.isStocked = false := by
  have hb := (Content.sameFrame_of_clear h).1
  cases c with
  | leaf slot =>
    simp only [clear, Except.ok.injEq, Prod.mk.injEq] at h
    rw [← h.2]
    rfl
  | leafList l =>
    simp only [clear, LeafList.clear, Except.ok.injEq, Prod.mk.injEq] at h
    rw [← h.2]
    rfl
  | custom c =>
    cases c' with
    | custom c' => rfl
    | _ => simp [bare] at hb
  | _ => simp [clear] at h

end Content

/-- Taking something out leaves fewer entries. -/
theorem Element.isStocked_of_detach {e : Element} {name : String} {id : ElementId}
    (h : (e.detach name id).content.isStocked = true) : e.content.isStocked = true := by
  unfold Element.detach at h
  split at h
  · next hc =>
    split at h
    · exact h
    · exact h
  · next l hl =>
    rw [hl]
    simp only [Content.isStocked, KeyedList.isEmpty, Bool.not_eq_true',
      List.isEmpty_eq_false_iff] at h ⊢
    rintro hnil
    exact h (by rw [KeyedList.forget, hnil]; rfl)
  · exact h

/-- The slot of a leaf has neither items nor entries. -/
theorem isStocked_store (value : Option LeafValue) (e : Element) :
    (Tree.store value e).content.isStocked = e.content.isStocked := by
  unfold Tree.store
  split
  · next slot hslot =>
    rw [hslot]
    rfl
  · rfl

namespace Tree

variable {t t' : Tree} {id x : ElementId} {e : Element} {m n : Nat}

/-- The element has items or entries. -/
def Stocked (t : Tree) (x : ElementId) : Prop :=
  ∃ e, t.element? x = some e ∧ e.content.isStocked = true

/-- Whether something is stocked can be read off what it holds. -/
theorem stocked_of_held (h : t'.held x = t.held x) : t'.Stocked x ↔ t.Stocked x := by
  have hiff : ∀ t : Tree, t.Stocked x ↔ ∃ content, t.held x = some content ∧
      content.isStocked = true := by
    intro t
    constructor
    · rintro ⟨e, he, hs⟩
      exact ⟨e.content, held_eq_some_iff.2 ⟨e, he, rfl⟩, hs⟩
    · rintro ⟨content, hc, hs⟩
      obtain ⟨e, he, rfl⟩ := held_eq_some_iff.1 hc
      exact ⟨e, he, hs⟩
  rw [hiff, hiff, h]

/-! ## Losing nothing -/

/-- The old elements of `t` are in `t'`, and those with items or entries have some there. -/
structure Covers (n : Nat) (t t' : Tree) : Prop where
  isSome : ∀ {x : ElementId}, x.index < n → (t.element? x).isSome → (t'.element? x).isSome
  stocked : ∀ {x : ElementId}, x.index < n → t.Stocked x → t'.Stocked x

instance (n : Nat) : IsPreorder Tree (Covers n) where
  refl _ := ⟨fun _ h => h, fun _ h => h⟩
  trans _ _ _ h h' :=
    ⟨fun hx hs => h'.isSome hx (h.isSome hx hs), fun hx hl => h'.stocked hx (h.stocked hx hl)⟩

/-- A tree is covered by one with the same old elements. -/
theorem covers_of_element (h : ∀ {x : ElementId}, x.index < n → t'.element? x = t.element? x) :
    Covers n t t' where
  isSome := fun hx hs => by rwa [h hx]
  stocked := fun hx hl => by
    obtain ⟨e, he, hd⟩ := hl
    exact ⟨e, by rw [h hx, he], hd⟩

/-- Changing an element adds nothing if it adds nothing to that element, or if that is new. -/
theorem covers_of_modifyElement {f : Element → Element}
    (h : id.index < n → ∀ e, t.element? id = some e →
    (f e).content.isStocked = true → e.content.isStocked = true) :
    Covers n (t.modifyElement id f) t where
  isSome := fun _ hs => by rwa [isSome_element?_modifyElement] at hs
  stocked := fun {x} hx hl => by
    obtain ⟨e', he', hd⟩ := hl
    obtain ⟨e, he, ⟨rfl, rfl⟩ | ⟨-, rfl⟩⟩ := modifyElement_cases he'
    · exact ⟨e, he, h hx e he hd⟩
    · exact ⟨e', he, hd⟩

/-! ## Saving registrations -/

/-- No old element and none of their items and entries are new; and if none are gone, then the
registrations of the old elements are as they were. -/
structure Saves (n : Nat) (t t' : Tree) : Prop where
  back : Covers n t' t
  registry : Covers n t t' → t'.registry.before n = t.registry.before n

instance (n : Nat) : IsPreorder Tree (Saves n) where
  refl t := ⟨refl_of (Covers n) t, fun _ => rfl⟩
  trans t₁ t₂ t₃ h h' :=
    { back := trans_of (Covers n) h'.back h.back
      registry := fun hc => by
        -- What is lost on the way is lost in the end.
        rw [h'.registry (trans_of (Covers n) h.back hc),
          h.registry (trans_of (Covers n) hc h'.back)] }

/-- What saves registrations in neat trees, does so under accounts. -/
theorem saves_accounts {α : Type} {x : Edit α} (hacc : Leads (Keeping (Accounts · n)) x)
    (h : Leads (Given (Neat · n) (Saves n)) x) : Leads (Given (Accounts · n) (Saves n)) x :=
  leads_given hacc fun t ht => (h t ht.neat).2

/-- Where the registry stays, nothing is lost but elements and what they hold. -/
theorem saves_of_registry (hr : t'.registry = t.registry) (back : Covers n t' t) : Saves n t t' :=
  ⟨back, fun _ => by rw [hr]⟩

/-- The slots and the older registrations decide. -/
theorem saves_of_slots (hs : t'.slots = t.slots) (hr : t'.registry.before n = t.registry.before n) :
    Saves n t t' :=
  ⟨covers_of_element fun _ => (element?_congr hs _).symm, fun _ => hr⟩

/-- A change of an old element must not stock it. -/
theorem saves_modifyElement {f : Element → Element}
    (h : id.index < n → ∀ e, t.element? id = some e →
    (f e).content.isStocked = true → e.content.isStocked = true) :
    Saves n t (t.modifyElement id f) := saves_of_registry rfl (covers_of_modifyElement h)

/-- The same for an edit that changes an element. -/
theorem saves_update {f : Element → Element} (hf : ∀ e : Element,
      (f e).id = e.id ∧ (f e).path = e.path ∧ (f e).registers = e.registers)
    (h : id.index < n → ∀ e : Element, (f e).content.isStocked = true →
      e.content.isStocked = true) :
    Leads (Given (Neat · n) (Saves n)) (update id f) :=
  leads_given (neat_of_accounts fun _ => accounts_update hf) fun t _ =>
    (leads_update fun _ _ _ => saves_modifyElement fun hid e _ => h hid e) t

/-- A content without items and entries stocks nothing. -/
theorem saves_content {content : Content} (h : content.isStocked = false) :
    Leads (Given (Neat · n) (Saves n)) (update id fun e => { e with content }) := by
  refine saves_update (fun _ => ⟨rfl, rfl, rfl⟩) fun _ _ hd => ?_
  rw [h] at hd
  cases hd

/-- Dropping registrations of items of a new element. -/
theorem Accounts.saves_unregisterMembers (h : t.Accounts m) (he : n ≤ e.id.index)
    (items : List Value) : Saves n t (items.foldl (fun t v => t.unregisterMember e v) t) := by
  induction items generalizing t with
  | nil => exact refl_of (Saves n) t
  | cons v items ih =>
    refine trans_of (Saves n) ?_ (ih (h.unregisterMember e v))
    refine saves_of_slots (slots_unregister t e _ _) ?_
    unfold Tree.unregisterMember unregister
    split
    · exact h.tidy.before_unregister he
    · rfl

/-- An element that is dropped is new, or an old one is gone. -/
theorem Accounts.saves_drop (h : t.Accounts m) (id : ElementId) : Saves n t (t.drop id) := by
  have hback : Covers n (t.drop id) t := by
    have hsome : ∀ {x xe}, (t.drop id).element? x = some xe → t.element? x = some xe :=
      fun hx => (element?_drop_eq_some_iff.1 hx).2
    refine ⟨fun {x} _ hs => ?_, fun {x} _ hl => ?_⟩
    · obtain ⟨xe, hxe⟩ := Option.isSome_iff_exists.1 hs
      rw [hsome hxe]
      rfl
    · obtain ⟨xe, hxe, hd⟩ := hl
      exact ⟨xe, hsome hxe, hd⟩
  refine ⟨hback, fun hc => ?_⟩
  cases he : t.element? id with
  | none => rw [drop_of_none he]
  | some e =>
    have hid : n ≤ id.index := by
      by_contra hlt
      have hs := hc.isSome (Nat.not_le.1 hlt) (by rw [he]; rfl)
      rw [element?_drop, if_pos rfl] at hs
      cases hs
    have heid : n ≤ e.id.index := by rwa [h.id_eq he]
    have hmembers := h.unregisterMembers e e.content.members
    have hsaves := (h.saves_unregisterMembers heid e.content.members).registry
      (covers_of_element fun _ => element?_congr (foldl_unregisterMember e e.content.members t).1 _)
    rw [registry_drop he, registry_foldl_unregisterMember e e.content.members
      (t.registry_vacate id)]
    split
    · rw [hmembers.tidy.before_unregister hid, hsaves]
    · exact hsaves

theorem saves_detach (t : Tree) (e : Element) : Saves n t (t.detach e) := by
  unfold Tree.detach
  split
  · exact saves_modifyElement fun _ _ _ hd => Element.isStocked_of_detach hd
  · exact refl_of (Saves n) t

/-- Removing a subtree unregisters what it removes, and nothing else. -/
theorem saves_removeSubtree (id : ElementId) :
    Leads (Given (Neat · n) (Saves n)) (removeSubtree id) := by
  refine leads_given (neat_of_accounts fun _ => accounts_removeSubtree id) fun t ht => ?_
  refine rel_of_ensures ?_
  rw [removeSubtree, ensures_reading_bind]
  refine ⟨fun doomed hdoomed => ?_, fun _ _ => refl_of (Saves n) t⟩
  rw [ensures_get_bind]
  refine ⟨fun e _ => ?_, fun _ => refl_of (Saves n) t⟩
  rw [ensures_changing]
  clear hdoomed
  have hdetach := ht.1.detach e
  have hsaves : Saves n t (t.detach e) := saves_detach t e
  generalize t.detach e = t' at hdetach hsaves
  induction doomed generalizing t' with
  | nil => exact hsaves
  | cons id doomed ih =>
    exact ih (t'.drop id) (hdetach.drop id) (trans_of (Saves n) hsaves (hdetach.saves_drop id))

/-! ## Unsetting -/

/-- So does clearing. -/
theorem saves_clear (id : ElementId) : Leads (Given (Neat · n) (Saves n)) (clear id) := by
  unfold clear get
  refine leads_reading_bind fun t e he => ?_
  rw [element_eq_ok_iff] at he
  split
  · next l hl =>
    exact ((saves_content rfl).bind fun _ => leads_forM fun entry _ => saves_removeSubtree entry) t
  · next hl =>
    refine rel_bind (leads_ofExcept _ t) fun r t₁ hr h => ?_
    obtain ⟨vs, c⟩ := r
    rw [on_ofExcept, Prod.mk.injEq] at hr
    obtain ⟨hclear, rfl⟩ := hr
    have hempty := Content.isStocked_of_clear hclear
    let t₂ := t.modifyElement id fun e => { e with content := c }
    have hon : ((do
        update id fun e => { e with content := c }
        changing fun t => e.content.members.foldl (fun t item => t.unregisterMember e item) t :
          Edit Unit).on t).2 = e.content.members.foldl (fun t item =>
            t.unregisterMember e item) t₂ := by
      rw [on_bind, on_update, element, he]
      rfl
    show Neat (Prod.snd _) n ∧ Saves n t (Prod.snd _)
    rw [hon]
    have h₂ : t₂.Accounts t.slots.size := h.1.modifyElement fun _ _ => ⟨rfl, rfl, rfl⟩
    have hsaves : Saves n t t₂ := saves_modifyElement fun _ _ _ hd => by
      rw [hempty] at hd
      cases hd
    refine ⟨h.of_accounts (h₂.unregisterMembers e _), ?_⟩
    by_cases hid : id.index < n
    · -- An old element either had items, and has lost them, or there is nothing to drop.
      have hslots := (foldl_unregisterMember e e.content.members t₂).1
      have hback : Covers n (e.content.members.foldl (fun t v => t.unregisterMember e v) t₂) t :=
        trans_of (Covers n) (covers_of_element fun _ => (element?_congr hslots _).symm) hsaves.back
      refine ⟨hback, fun hc => ?_⟩
      have hdata : e.content.isStocked = false := by
        rw [← Bool.not_eq_true]
        intro hd
        obtain ⟨e', he', hd'⟩ := hc.stocked hid ⟨e, he, hd⟩
        rw [element?_congr hslots, element?_modifyElement_self he] at he'
        rw [← Option.some.inj he', hempty] at hd'
        cases hd'
      rw [Content.members_of_not_isStocked hdata]
      rfl
    · exact trans_of (Saves n) hsaves
        (h₂.saves_unregisterMembers (by rw [h.1.id_eq he]; omega) e.content.members)

/-- So does a hook. -/
theorem saves_runUnset (hook : Unset) : Leads (Given (Neat · n) (Saves n)) (runUnset hook) := by
  cases hook with
  | contents id =>
    exact (leads_reading _).bind fun _ => leads_forM fun holder _ => saves_clear holder
  | subtree id => exact saves_removeSubtree id

/-- So do several hooks. -/
theorem saves_runUnsets (hooks : List Unset) :
    Leads (Given (Neat · n) (Saves n)) (runUnsets hooks) :=
  leads_forM fun hook _ => saves_runUnset hook

/-! ## Marking and assigning -/

/-- A mark is no registration. -/
theorem saves_mark (x : ElementId) (changed : Bool) :
    Leads (Given (Neat · n) (Saves n)) (update x fun e => { e with changed }) :=
  saves_update (fun _ => ⟨rfl, rfl, rfl⟩) fun _ _ hd => hd

theorem saves_markChanged (ids : List ElementId) :
    Leads (Given (Neat · n) (Saves n)) (markChanged ids) :=
  leads_forM fun id _ => saves_mark id true

theorem saves_restoreMarks (marks : List (ElementId × Bool)) :
    Leads (Given (Neat · n) (Saves n)) (restoreMarks marks) :=
  leads_forM fun m _ => saves_mark m.1 m.2

/-- Nor is a value. -/
theorem saves_store (x : ElementId) (value : Option LeafValue) :
    Leads (Given (Neat · n) (Saves n)) (update x (store value)) := by
  refine saves_update (fun e => ?_) fun _ e hd => isStocked_store value e ▸ hd
  unfold store
  split <;> exact ⟨rfl, rfl, rfl⟩

/-- Assigning saves registrations, wherever references lead. -/
theorem saves_assignFrom (fuel : Nat) (id : ElementId) (raw : Value) :
    Leads (Given (Neat · n) (Saves n)) (assignFrom fuel id raw) := by
  refine leads_assignFrom (fun {t t' id p e type} value _ _ _ ht => ?_) fuel id raw
  have hlast : Leads (Given (Neat · n) (Saves n)) (do
      runUnsets p.unsets
      update id (store value)
      markChanged p.marks : Edit Unit) :=
    (saves_runUnsets p.unsets).bind fun _ =>
      (saves_store id value).bind fun _ => saves_markChanged p.marks
  exact trans_of (Given (Neat · n) (Saves n)) ht (hlast t')

/-- Assigning a key registers nothing. -/
theorem saves_assignKey (entry : ElementId) (pairs : List (String × String)) :
    Leads (Given (Neat · n) (Saves n)) (assignKey entry pairs) :=
  leads_assignKey (leads_setLeaf saves_assignFrom) entry pairs

/-- Assigning a key, or taking the entry back. -/
theorem saves_tryAssignKey (entry : ElementId) (pairs : List (String × String))
    (before : List (ElementId × Bool)) :
    Leads (Given (Neat · n) (Saves n)) (tryAssignKey entry pairs before) :=
  (saves_assignKey entry pairs).tryCatch fun err => (saves_removeSubtree entry).bind fun _ =>
    (saves_restoreMarks before).bind fun _ => leads_throw err

/-! ## Building -/

/-- A new element leaves the registrations of the old ones. -/
theorem saves_wrap {content : Content} {spec : ElementSpec} :
    Leads (Given (Neat · n) (Saves n)) (wrap content spec) := by
  refine leads_wrap fun t hparent h => ?_
  have hneat : ((wrap content spec).on t).2.Neat n := neat_of_accounts (fun _ => accounts_wrap) t h
  rw [on_wrap content hparent] at hneat
  refine ⟨hneat, ?_⟩
  have hlink : Saves n t (t.link spec) := by
    unfold link
    split
    · refine saves_modifyElement fun _ e _ hd => ?_
      unfold Element.gain at hd
      split at hd <;> exact hd
    · exact refl_of (Saves n) t
  refine trans_of (Saves n) hlink ⟨covers_of_element fun {x} hx => ?_, fun _ => ?_⟩
  · rw [element?_place, if_neg]
    rintro rfl
    rw [size_slots_link] at hx
    exact absurd h.2 (Nat.not_le.2 hx)
  · rw [registry_place, registry_register]
    split
    · exact Registry.before_register h.2
    · rfl

/-- Building leaves the registrations of the old elements. -/
theorem saves_build (schema : Schema) (spec : ElementSpec) :
    Leads (Given (Neat · n) (Saves n)) (build schema spec) := by
  have hstable : BuildStable (Given (Neat · n) (Saves n)) spec.registers
      (fun _ => True) fun _ => True :=
    { wrap := fun _ _ _ _ _ => saves_wrap
      field := fun _ => saves_update (fun _ => ⟨rfl, rfl, rfl⟩) fun _ _ hd => hd
      remove := saves_removeSubtree }
  exact hstable.build schema spec (schema.uses_of_forall (fun _ => trivial) fun _ => trivial) rfl

/-! ## New elements -/

/-- Carrying out a plan unregisters what it removes, and nothing else. -/
theorem saves_commit (p : Plan) : Leads (Given (Neat · n) (Saves n)) (commit p) :=
  (saves_runUnsets p.unsets).bind fun _ => saves_markChanged p.marks

/-- Registering an item of a new element. -/
theorem Neat.saves_registerMember (h : t.Neat n) (he : t.element? id = some e) (hid : n ≤ id.index)
    (v : Value) : (t.registerMember e v).Neat n ∧ Saves n t (t.registerMember e v) := by
  have heid := h.1.id_eq he
  refine ⟨h.of_accounts (h.1.registerMember (by rw [heid]; exact index_lt_of_element? he) v),
    saves_of_slots (slots_register t e _ _) ?_⟩
  unfold Tree.registerMember register
  split
  · exact Registry.before_register (x := .member e.id v) (by rw [Target.owner, heid]; exact hid)
  · rfl

/-- Unregistering an item of a new element leaves the old ones. -/
theorem Neat.saves_unregisterMember (h : t.Neat n) (he : t.element? id = some e)
    (hid : n ≤ id.index) (v : Value) :
    (t.unregisterMember e v).Neat n ∧ Saves n t (t.unregisterMember e v) :=
  ⟨h.of_accounts (h.1.unregisterMember e v),
    h.1.saves_unregisterMembers (by rw [h.1.id_eq he]; exact hid) [v]⟩

/-- A change of a new element leaves the old ones. -/
theorem saves_update_of_new {f : Element → Element} (hid : n ≤ id.index)
    (hf : ∀ e : Element, (f e).id = e.id ∧ (f e).path = e.path ∧ (f e).registers = e.registers) :
    Leads (Given (Neat · n) (Saves n)) (update id f) :=
  saves_update hf fun hlt => absurd hlt (Nat.not_lt.2 hid)

/-- Editing items of a new element leaves the old ones. -/
theorem saves_editItem (hid : n ≤ id.index) (op : ItemEdit) :
    Leads (Given (Neat · n) (Saves n)) (editItem id op) := by
  unfold editItem get
  refine (leads_reading _).bind fun p => (leads_reading _).bind fun e =>
    (leads_ofExcept _).bind fun r => ?_
  obtain ⟨item, content⟩ := r
  have hcontent : Leads (Given (Neat · n) (Saves n)) (update id fun e => { e with content }) :=
    saves_update_of_new hid fun _ => ⟨rfl, rfl, rfl⟩
  refine hcontent.bind fun _ => (saves_commit p).bind fun _ => ?_
  refine leads_reading_bind fun t e he => rel_bind ?_ fun _ t' _ => leads_pure item t'
  rw [element_eq_ok_iff] at he
  rw [on_changing]
  intro ht
  split
  · exact ht.saves_registerMember he hid item
  · exact ht.saves_unregisterMember he hid item

/-- So does adding items to it in bulk. -/
theorem saves_extend (hid : n ≤ id.index) (raws : List Value) :
    Leads (Given (Neat · n) (Saves n)) (extend id raws) := by
  unfold extend get
  refine (leads_reading _).bind fun p => (leads_reading _).bind fun e =>
    (leads_ofExcept _).bind fun r => ?_
  obtain ⟨items, content⟩ := r
  have hcontent : Leads (Given (Neat · n) (Saves n)) (update id fun e => { e with content }) :=
    saves_update_of_new hid fun _ => ⟨rfl, rfl, rfl⟩
  refine hcontent.bind fun _ => (saves_commit p).bind fun _ =>
    Leads.bind (leads_forM fun item _ => ?_) fun _ => leads_pure items
  refine leads_reading_bind fun t e he => ?_
  rw [on_changing]
  exact fun ht => ht.saves_registerMember (element_eq_ok_iff.1 he) hid item

theorem saves_tell (event : Event) :
    Leads (Given (Neat · n) (Saves n)) (changing fun t => t.tell event) :=
  leads_changing fun _ ht => ⟨ht.of_accounts (ht.1.of_slots rfl rfl), saves_of_slots rfl rfl⟩

/-- So does putting entries into a new list. -/
theorem saves_relist (hid : n ≤ id.index) (f : KeyedList → KeyedList) :
    Leads (Given (Neat · n) (Saves n)) (update id (relist f)) := by
  refine saves_update_of_new hid fun e => ?_
  unfold relist
  split <;> exact ⟨rfl, rfl, rfl⟩

/-- Adding an entry to a new list leaves the registrations of the old elements. -/
theorem saves_add (hid : n ≤ id.index) (key : Option String) :
    Leads (Given (Neat · n) (Saves n)) (add id key) := by
  have hentry : Leads (Given (Neat · n) (Saves n)) (addEntry id key) := by
    unfold addEntry get
    refine (leads_reading _).bind fun p => (leads_reading _).bind fun e =>
      (leads_reading _).bind fun l =>
      (leads_reading _).bind fun t => (leads_ofExcept _).bind fun r => ?_
    obtain ⟨key, parts, path⟩ := r
    refine (saves_build _ _).bind fun entry => (leads_reading _).bind fun before =>
      (saves_tryAssignKey entry _ before).bind fun _ => Leads.bind ?_ fun _ => ?_
    · rw [updateList_eq]
      exact saves_relist hid _
    · have hcommit := (saves_commit (n := n) p).bind fun _ => leads_pure key
      split
      · exact (leads_changing fun _ ht =>
          ⟨ht.of_accounts (ht.1.of_slots rfl rfl), saves_of_slots rfl rfl⟩).bind fun _ => hcommit
      · exact hcommit
  unfold add listToChange get
  exact (leads_reading _).bind fun _ => (leads_reading _).bind fun e => (saves_tell _).bind fun _ =>
    hentry.bind fun key => (saves_tell _).bind fun _ => leads_pure key

/-- So does deleting one of it. -/
theorem saves_delete (hid : n ≤ id.index) (key : String) :
    Leads (Given (Neat · n) (Saves n)) (delete id key) := by
  unfold delete listToChange get
  refine (leads_reading _).bind fun _ => (leads_reading _).bind fun e =>
    (saves_tell _).bind fun _ =>
    (leads_reading _).bind fun p => (leads_reading _).bind fun l => ?_
  split
  · exact leads_throw _
  · next entry rest _ =>
    refine Leads.bind ?_ fun _ => (saves_removeSubtree entry).bind fun _ =>
      (saves_commit p).bind fun _ => saves_tell _
    rw [updateList_eq]
    exact saves_relist hid _

end Tree

end DataTree
