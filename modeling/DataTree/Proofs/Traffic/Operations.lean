import DataTree.Proofs.Traffic.Covered

/-!
# DataTree.Proofs.Traffic.Operations

Every operation of a session without choices keeps enough registrations to drop.

Items are registered after they are in and dropped after they are out; in between their
element is skipped, and nothing but marks happens, since there is nothing to unset.
-/

namespace DataTree

open Edit Outcome

/-! ## Items -/

/-- Whatever covers the new items and the old ones covers a content that gained at most the new
ones. -/
theorem Registry.Covers.gains {r : Registry} {e : Element} {c : Content} {items : List Value}
    (h : r.Covers (items.map e.itemRegistration ++ e.stock))
    (hgains : c.items.Subperm (items ++ e.content.items)) :
    r.Covers { e with content := c }.stock := by
  rw [Element.stock, ← List.map_append] at h
  exact h.of_subperm (map_subperm hgains e.itemRegistration)

namespace Tree

variable {t t' : Tree} {id : ElementId} {e : Element} {owners skipped : List ElementId}

/-! ## Steps without registrations -/

/-- The later tree has told nothing, and its elements will drop the same. -/
structure Still (t t' : Tree) : Prop where
  registry : t'.registry = t.registry
  events : t'.events = t.events
  isSome : ∀ id, (t'.element? id).isSome = (t.element? id).isSome
  element : ∀ {id e'}, t'.element? id = some e' → ∃ e, t.element? id = some e ∧ e.Calm e'

instance : IsPreorder Tree Still where
  refl _ := ⟨rfl, rfl, fun _ => rfl, fun h => ⟨_, h, .refl _⟩⟩
  trans _ _ _ h h' :=
    { registry := h'.registry.trans h.registry
      events := h'.events.trans h.events
      isSome := fun id => (h'.isSome id).trans (h.isSome id)
      element := fun he => by
        obtain ⟨e₂, he₂, h₂⟩ := h'.element he
        obtain ⟨e₁, he₁, h₁⟩ := h.element he₂
        exact ⟨e₁, he₁, h₁.trans h₂⟩ }

/-- What is covered stays so as long as nothing is told. -/
theorem Covered.still (h : Covered owners skipped t) (hs : t.Still t') :
    Covered owners skipped t' :=
  h.of_elements hs.registry hs.events hs.element

/-- A tree is still where the changed element stays calm. -/
theorem still_modifyElement {f : Element → Element}
    (h : ∀ e, t.element? id = some e → e.Calm (f e)) : t.Still (t.modifyElement id f) := by
  refine ⟨rfl, rfl, isSome_element?_modifyElement t id f, fun {x e'} he => ?_⟩
  obtain ⟨e, hxe, ⟨rfl, rfl⟩ | ⟨-, rfl⟩⟩ := modifyElement_cases he
  · exact ⟨e, hxe, h e hxe⟩
  · exact ⟨e', hxe, .refl e'⟩

/-- The same for an edit that changes an element. -/
theorem still_update {f : Element → Element} (h : ∀ e : Element, e.Calm (f e)) :
    Leads Still (update id f) := leads_update fun _ _ _ => still_modifyElement fun e _ => h e

theorem still_markChanged (ids : List ElementId) : Leads Still (markChanged ids) :=
  leads_forM fun _ _ => still_update fun _ => ⟨rfl, rfl, rfl⟩

theorem still_detach (t : Tree) (e : Element) : t.Still (t.detach e) := by
  unfold detach
  split
  · exact still_modifyElement fun p _ => p.calm_detach e.name e.id
  · exact refl_of Still t

/-! ## Removing -/

/-- Dropping an element tells of all that was registered for it. -/
theorem covered_drop (h : Covered owners owners t) (id : ElementId) :
    Covered owners owners (t.drop id) := by
  cases he : t.element? id with
  | none =>
    rw [drop_of_none he]
    exact h
  | some e =>
    have horderly := h.orderly he
    have hid := horderly.id_eq
    have hslots₁ := (foldl_unregisterMember e e.content.members (t.vacate id)).1
    have hgone : (t.vacate id).element? id = none := by rw [element?_vacate, if_pos rfl]
    -- with its slot emptied the element has no say any more, and what it drops is still there
    have h₀ : Covered owners owners (t.vacate id) := h.of_elements rfl rfl fun {x e'} he' => by
      rw [element?_vacate] at he'
      split at he'
      · cases he'
      · exact ⟨e', he', .refl e'⟩
    obtain ⟨h₁, hself⟩ := h₀.unregisterMembers horderly.registers
      horderly.proper.members (fun e' he' => by rw [hid, hgone] at he'; cases he')
      (fun hown => (h.stocked he (hid ▸ hown)).of_subperm (e.content.members_sublist.map _).subperm)
      (h.standing he) fun z hz v => by rw [List.mem_singleton.1 hz]; rfl
    rw [drop_of_some he]
    refine h₁.unregister horderly.registers trivial
      (.inr (hself.exists_same trivial)) fun e' he' => ?_
    rw [element?_congr hslots₁] at he'
    exact absurd (hgone.symm.trans he') (by simp)

/-- Removing a subtree tells of all that was registered for it. -/
theorem covered_removeSubtree (id : ElementId) :
    Leads (Keeping (Covered owners owners)) (removeSubtree id) := by
  unfold removeSubtree get
  refine (leads_reading _).bind fun doomed => (leads_reading _).bind fun e => ?_
  refine leads_changing fun t h => ?_
  have hdetached := h.still (still_detach t e)
  generalize t.detach e = t' at hdetached
  induction doomed generalizing t' with
  | nil => exact hdetached
  | cons id doomed ih => exact ih _ (covered_drop hdetached id)

/-! ## Other contents -/

/-- With another content the element is skipped, until its items are registered. -/
theorem Covered.withContent (h : Covered owners skipped t) (he : t.element? id = some e)
    {c : Content}
    (hbare : c.bare = e.content.bare) (hc : c.Proper) (hmost : id ∉ owners → c.HoldsAtMost) :
    Covered owners (id :: skipped) (t.withContent id c) := by
  have hel : ∀ {x e'}, (t.withContent id c).element? x = some e' →
      x = id ∧ e' = { e with content := c } ∨ x ≠ id ∧ t.element? x = some e' := by
    intro x e' he'
    obtain ⟨e₀, he₀, ⟨rfl, rfl⟩ | ⟨hx, rfl⟩⟩ := modifyElement_cases he'
    · obtain rfl : e = e₀ := Option.some.inj (he.symm.trans he₀)
      exact .inl ⟨rfl, rfl⟩
    · exact .inr ⟨hx, he₀⟩
  refine
    { toTold := h.toTold.of_same rfl rfl
      orderly := fun he' => ?_
      standing := fun he' => ?_
      stocked := fun he' hno => ?_ }
  · obtain ⟨rfl, rfl⟩ | ⟨-, he'⟩ := hel he'
    · exact (h.orderly he).content hbare hc hmost
    · exact h.orderly he'
  · obtain ⟨rfl, rfl⟩ | ⟨-, he'⟩ := hel he'
    · exact (h.standing he : t.registry.Covers [(e.path, _)])
    · exact h.standing he'
  · obtain ⟨rfl, rfl⟩ | ⟨-, he'⟩ := hel he'
    · exact absurd List.mem_cons_self hno
    · exact h.stocked he' fun hm => hno (List.mem_cons_of_mem _ hm)

/-- Clearing tells of the items and entries that it takes. -/
theorem covered_clear (id : ElementId) : Leads (Keeping (Covered owners owners)) (clear id) := by
  refine leads_keeping_iff.2 fun t h => ?_
  unfold clear
  rw [ensures_get_bind]
  refine ⟨fun e he => ?_, fun _ => h⟩
  have horderly := h.orderly he
  split
  · next l hl =>
    rw [ensures_bind, ensures_update]
    refine ⟨fun _ _ => ?_, fun _ => h⟩
    refine (leads_forM fun entry _ => covered_removeSubtree entry).keeps (h.still ?_)
    refine still_modifyElement fun e' he' => ?_
    obtain rfl : e = e' := Option.some.inj (he.symm.trans he')
    exact ⟨Element.stub_eq_iff.2 ⟨rfl, rfl, rfl, by rw [hl]; rfl, by rw [hl]; rfl⟩, rfl,
      by rw [hl]; rfl⟩
  · rw [ensures_ofExcept_bind]
    refine ⟨fun r hr => ?_, fun _ _ => h⟩
    obtain ⟨vs, cleared⟩ := r
    rw [ensures_bind, ensures_update]
    refine ⟨fun _ _ => ?_, fun _ => h⟩
    have h₁ := h.withContent he (Content.sameFrame_of_clear hr).1
      (Content.proper_of_clear hr horderly.proper) fun hno =>
        ((horderly.holdsAtMost hno).of_clear hr).1
    obtain ⟨h₂, -⟩ := h₁.unregisterMembers horderly.registers
      horderly.proper.members (fun _ _ => horderly.id_eq ▸ List.mem_cons_self)
      (fun hown => (h.stocked he (horderly.id_eq ▸ hown)).of_subperm
        (e.content.members_sublist.map _).subperm)
      (Registry.covers_nil _) fun z hz => by cases hz
    refine h₂.unskip fun hno e' he' => ?_
    rw [element?_congr (foldl_unregisterMember e _ _).1, Tree.withContent,
      element?_modifyElement_self he] at he'
    obtain rfl := Option.some.inj he'
    have hstock : { e with content := cleared }.stock = [] := by
      rw [Element.stock]
      show cleared.items.map _ = []
      rw [((horderly.holdsAtMost hno).of_clear hr).2, List.map_nil]
    rw [hstock]
    exact Registry.covers_nil _

/-- So does unsetting. -/
theorem covered_unset (id : ElementId) : Leads (Keeping (Covered owners owners)) (unset id) :=
  (leads_reading _).bind fun _ => leads_forM fun holder _ => covered_clear holder

/-! ## Items -/

/-- Items are registered one after another. -/
theorem Covered.registerMembers {items : List Value} (h : Covered owners skipped t)
    (hr : e.registers = true) (hitems : ∀ v ∈ items, v.Proper) {regs : List Registration}
    (hregs : t.registry.Covers regs) :
    let t' := items.foldl (fun t v => t.registerMember e v) t
    Covered owners skipped t' ∧ t'.registry.Covers (items.map e.itemRegistration ++ regs) := by
  induction items generalizing t regs with
  | nil => exact ⟨h, hregs⟩
  | cons v items ih =>
    have hreg : (t.registerMember e v).registry
        = t.registry.register (e.memberPath v) (.member e.id v) := by
      rw [Tree.registerMember, Tree.register, if_pos hr]
    have hv : (Target.member e.id v).Proper := hitems v List.mem_cons_self
    obtain ⟨h', hcovers⟩ := ih (h.register hr hv)
      (fun w hw => hitems w (List.mem_cons_of_mem v hw)) (hreg ▸ hregs.register_cons _ _)
    exact ⟨h', hcovers.of_subperm List.perm_middle.symm.subperm⟩

/-- After a plan has been carried out, an element has the content that was put in before. -/
theorem Still.calm_of_withContent {c : Content} {t₂ : Tree} (hs : (t.withContent id c).Still t₂)
    (he : t.element? id = some e) {e₂ : Element} (he₂ : t₂.element? id = some e₂) :
    { e with content := c }.Calm e₂ := by
  obtain ⟨e₁, he₁, hcalm⟩ := hs.element he₂
  rw [Tree.withContent, element?_modifyElement_self he] at he₁
  exact Option.some.inj he₁ ▸ hcalm

/-- Editing tells of the item that comes or goes. -/
theorem covered_editItem (id : ElementId) {op : ItemEdit} (hop : op.Proper) :
    Leads (Keeping (Covered owners owners)) (editItem id op) := by
  refine leads_keeping_iff.2 fun t h => ensures_editItem (fun _ => h)
    fun {p e item content} hp he hedit => ?_
  obtain ⟨hitem, hcontent⟩ := Content.proper_of_edit hedit hop (h.orderly he).proper
  have hmost := fun hno => ((h.orderly he).holdsAtMost hno).of_edit hedit hop
  have h₁ := h.withContent he (Content.sameFrame_of_edit hedit).1 hcontent fun hno => (hmost hno).1
  have hcommit := ensures_commit_marking still_markChanged (t.withContent id content)
    (fun he => (h.orderly he).choices) hp (isSome_element?_modifyElement t id _)
  refine hcommit.mono (fun _ t₂ hs => ⟨fun e₂ he₂ => ?_, fun hnone => ?_⟩) fun _ _ hf => hf.elim
  · have h₂ := h₁.still hs
    have hcalm := hs.calm_of_withContent he he₂
    have horderly₂ := h₂.orderly he₂
    obtain ⟨hid₂, hpath₂, -, -, -⟩ := Element.stub_eq_iff.1 hcalm.stub
    have hitem₂ : e₂.itemRegistration item = e.itemRegistration item := by
      rw [Element.itemRegistration_congr hid₂ hpath₂]
      rfl
    have hregistry : t₂.registry = t.registry := hs.registry
    cases hadds : op.adds with
    | true =>
      rw [if_pos rfl]
      refine (h₂.register horderly₂.registers
        (show (Target.member e₂.id item).Proper from hitem)).unskip fun hno e' he' => ?_
      rw [element?_congr (slots_register t₂ e₂ _ _)] at he'
      obtain rfl := Option.some.inj (he₂.symm.trans he')
      rw [Tree.register, if_pos horderly₂.registers, Element.stock_of_stub hcalm.stub]
      show (t₂.registry.register (e₂.itemRegistration item).1 (e₂.itemRegistration item).2).Covers _
      rw [hregistry, hitem₂]
      have hgains := (hmost hno).2
      rw [if_pos hadds] at hgains
      exact ((h.stocked he hno).register_cons _ _).of_subperm
        (map_subperm hgains e.itemRegistration)
    | false =>
      rw [if_neg (by decide)]
      have hstock₂ : e₂.stock = content.items.map e.itemRegistration :=
        Element.stock_of_stub hcalm.stub
      have hcovers : id ∉ owners → t₂.registry.Covers (e₂.itemRegistration item :: e₂.stock) := by
        intro hno
        have hgone := (hmost hno).2
        rw [if_neg (by simp [hadds])] at hgone
        rw [hregistry, hitem₂, hstock₂]
        exact (h.stocked he hno).of_subperm (map_subperm hgone e.itemRegistration)
      have hid : e₂.id = id := horderly₂.id_eq
      refine (h₂.unregister horderly₂.registers
        (show (Target.member e₂.id item).Proper from hitem) ?_
        fun _ _ => ⟨hid ▸ List.mem_cons_self, fun _ h => by cases h⟩).unskip fun hno e' he' => ?_
      · by_cases hown : id ∈ owners
        · exact .inl (hid ▸ hown)
        · exact .inr ((hcovers hown).exists_same hitem)
      · rw [element?_congr (slots_unregister t₂ e₂ _ _)] at he'
        obtain rfl := Option.some.inj (he₂.symm.trans he')
        rw [Tree.unregister, if_pos horderly₂.registers]
        exact (hcovers hno).unregister h₂.tidy.single h₂.proper hitem
  · have hsome := hs.isSome id
    rw [hnone, Tree.withContent, isSome_element?_modifyElement, he] at hsome
    cases hsome

/-- Adding in bulk tells of every new item. -/
theorem covered_extend (id : ElementId) {raws : List Value} (hraws : ∀ raw ∈ raws, raw.Proper) :
    Leads (Keeping (Covered owners owners)) (extend id raws) := by
  refine leads_keeping_iff.2 fun t h => ensures_extend (fun _ => h)
    fun {p e items content} hp he hextend => ?_
  obtain ⟨hitems, hcontent⟩ := Content.proper_of_extend hextend hraws (h.orderly he).proper
  have hmost := fun hno => ((h.orderly he).holdsAtMost hno).of_extend hextend hraws
  have h₁ :=
    h.withContent he (Content.sameFrame_of_extend hextend).1 hcontent fun hno => (hmost hno).1
  have hcommit := ensures_commit_marking still_markChanged (t.withContent id content)
    (fun he => (h.orderly he).choices) hp (isSome_element?_modifyElement t id _)
  refine hcommit.mono (fun _ t₂ hs => ⟨fun e₂ he₂ => ?_, fun hnone => ?_⟩) fun _ _ hf => hf.elim
  · have h₂ := h₁.still hs
    have hcalm := hs.calm_of_withContent he he₂
    obtain ⟨hid₂, hpath₂, -, -, -⟩ := Element.stub_eq_iff.1 hcalm.stub
    have hregistry : t₂.registry = t.registry := hs.registry
    by_cases hno : id ∉ owners
    · obtain ⟨h₃, hcovers⟩ := h₂.registerMembers (h₂.orderly he₂).registers hitems
        (hregistry ▸ h.stocked he hno)
      refine h₃.unskip fun _ e' he' => ?_
      rw [element?_congr (slots_foldl_registerMember e₂ items t₂)] at he'
      obtain rfl := Option.some.inj (he₂.symm.trans he')
      rw [Element.itemRegistration_congr hid₂ hpath₂] at hcovers
      rw [Element.stock_of_stub hcalm.stub]
      exact hcovers.gains (hmost hno).2
    · exact (h₂.registerMembers (h₂.orderly he₂).registers hitems (Registry.covers_nil _)).1.unskip
        fun hno' => absurd hno' hno
  · have hsome := hs.isSome id
    rw [hnone, Tree.withContent, isSome_element?_modifyElement, he] at hsome
    cases hsome

/-! ## Building and entries -/

/-- A new element holds no items and will hold none but those put in, or it is an owner. -/
theorem covered_wrap (h : Covered owners owners t) {content : Content} {spec : ElementSpec}
    (hc : content.Proper) (hfree : ∀ l, content = .list l → Schema.AllChoiceFree l.schema.entry)
    (hr : spec.registers = true)
    (hitems : ⟨t.slots.size⟩ ∉ owners → content.items = [] ∧ content.HoldsAtMost) :
    Covered owners owners ((wrap content spec).on t).2 := by
  refine rel_of_ensures (R := fun _ => Covered owners owners)
    (ensures_wrap_of (fun _ => ?_) fun _ _ => h)
  have hlink : t.Still (t.link spec) := by
    unfold link
    split
    · exact still_modifyElement fun p _ => p.calm_gain spec.name _
    · exact refl_of Still t
  have h₁ := h.still hlink
  have hsize : (t.link spec).slots.size = t.slots.size := size_slots_link t spec
  let e := t.newElement content spec
  have horderly : e.IsOrderly owners ⟨t.slots.size⟩ :=
    ⟨rfl, hr, rfl, hc, fun hno => (hitems hno).2, hfree⟩
  have h₂ : Covered owners owners ((t.link spec).register e e.path (.element e.id)) :=
    h₁.register horderly.registers trivial
  have hreg : ((t.link spec).place e).registry
      = (t.link spec).registry.register e.path (.element ⟨t.slots.size⟩) := by
    rw [registry_place, registry_register, if_pos horderly.registers]
    rfl
  have hel : ∀ {x e'}, ((t.link spec).place e).element? x = some e' →
      x = ⟨t.slots.size⟩ ∧ e' = e ∨ ((t.link spec).register e e.path (.element e.id)).element? x =
        some e' := by
    intro x e' he'
    rw [element?_place, hsize] at he'
    split at he'
    · next hx => exact .inl ⟨hx, (Option.some.inj he').symm⟩
    · exact .inr ((element?_congr (slots_register _ e e.path (.element e.id)) x).trans he')
  refine
    { toTold := h₂.toTold.of_same rfl rfl
      orderly := fun he' => ?_
      standing := fun he' => ?_
      stocked := fun he' hno => ?_ }
  · obtain ⟨rfl, rfl⟩ | he' := hel he'
    · exact horderly
    · exact h₂.orderly he'
  · obtain ⟨rfl, rfl⟩ | he' := hel he'
    · rw [hreg]
      exact (Registry.covers_nil _).register_cons _ _
    · exact h₂.standing he'
  · obtain ⟨rfl, rfl⟩ | he' := hel he'
    · have hstock : e.stock = [] := by
        rw [Element.stock]
        show content.items.map _ = []
        rw [(hitems hno).1, List.map_nil]
      rw [hstock]
      exact Registry.covers_nil _
    · exact h₂.stocked he' hno

/-- Building a schema tells of every element that it makes. -/
theorem buildStable_covered : BuildStable (Keeping (Covered owners owners)) true (· = none)
    fun l => Schema.AllChoiceFree l.entry where
  wrap := fun _ _ hc hl hr _ h =>
    covered_wrap h (Content.proper_of_isInitial hc) hl hr fun _ =>
      ⟨Content.items_of_isInitial hc, Content.tallies_of_isInitial hc⟩
  field := fun hcase t h => h.still (still_update (fun e => by
    subst hcase
    exact ⟨rfl, rfl, rfl⟩) t)
  remove := covered_removeSubtree

/-- Adding and deleting entries tell of them. -/
theorem entryKeeping_covered : EntryKeeping (Covered owners owners) fun _ => False where
  plan := fun h hp hook hm => by
    rw [unsets_of_planFrom (fun he => (h.orderly he).choices) hp] at hm
    cases hm
  unset := fun hf => hf.elim
  store := fun _ value t h => h.still (still_update (Element.calm_store value) t)
  mark := fun _ changed t h => h.still (still_update (f := fun e => { e with changed })
    (fun _ => ⟨rfl, rfl, rfl⟩) t)
  build := fun {t id e l path} h he hl => by
    refine buildStable_covered.build _ _ ?_ (h.orderly he).registers t h
    rw [Schema.Uses]
    exact allUse_of_choiceFree ((h.orderly he).entries l hl)
  remove := covered_removeSubtree
  members := fun {t id f} h hschema => by
    rw [updateList_eq, on_update, element]
    cases he : t.element? id with
    | none => exact h
    | some e =>
      refine h.still (still_modifyElement fun e' he' => ?_)
      obtain rfl : e = e' := Option.some.inj (he.symm.trans he')
      refine ⟨Element.stub_relist f e, ?_, ?_⟩ <;> unfold relist <;> split
      · rfl
      · rfl
      · next l hl => simp [hl, Content.bare, hschema e l he hl]
      · rfl
  makeKeys := fun h => h.still ⟨rfl, rfl, fun _ => rfl, fun he => ⟨_, he, .refl _⟩⟩

end Tree

end DataTree
