import DataTree.Proofs.Items
import DataTree.Proofs.Mirror.Backed
import DataTree.Proofs.Traffic.Replay

/-!
# DataTree.Proofs.Traffic.Covered

Trees whose registry has at least what their elements will drop from it.

An element that goes drops the registration of its path and those of its items, and an
item that goes drops its own.  `Covered` says that all these registrations are there, for
every element but those whose items it is told to skip; so what is dropped is registered
at that moment, and the events stay matched (`Told`).  Operations register and drop for
one element at a time, and nobody else's targets are equal to those (`Covered.unregister`).

The items that an element was made with have never been registered.  Elements that were
made with items are the *owners* here; their items are skipped from the start.  So are the
items of a supplied base that gives back what it was not given; of all others it is known
that they hold no more than was put into them (`Content.HoldsAtMost`).
-/

namespace DataTree

open Edit Outcome

namespace Registry

/-! ## Having enough registrations -/

/-- The registry has all these registrations, each as often as it occurs. -/
def Covers (r : Registry) (regs : List Registration) : Prop :=
  ∀ path {x : Target}, x.Proper → regs.countP (Registration.hits path x) ≤ r.count path x

variable {r : Registry} {regs regs' : List Registration} {path : String} {x y : Target}

theorem covers_nil (r : Registry) : r.Covers [] := fun _ _ _ => Nat.zero_le _

/-- Less is covered as well. -/
theorem Covers.of_subperm (h : r.Covers regs) (hp : regs'.Subperm regs) : r.Covers regs' :=
  fun path _ hx => Nat.le_trans (hp.countP_le _) (h path hx)

/-- What is to be dropped is there. -/
theorem Covers.exists_same (h : r.Covers ((path, y) :: regs)) (hy : y.Proper) :
    ∃ x ∈ r.targetsAt path, x.same y = true := by
  have hcount := h path hy
  rw [List.countP_cons, if_pos (by simp [Registration.hits, Target.same_refl hy])] at hcount
  exact List.countP_pos_iff.1 (Nat.lt_of_lt_of_le (Nat.succ_pos _) hcount)

/-- Registering covers one registration more. -/
theorem Covers.register_cons (h : r.Covers regs) (path : String) (y : Target) :
    (r.register path y).Covers ((path, y) :: regs) := by
  intro other x hx
  have hcount := h other hx
  rw [List.countP_cons, count_register]
  omega

/-- Registering uncovers nothing. -/
theorem Covers.register (h : r.Covers regs) (path : String) (y : Target) :
    (r.register path y).Covers regs :=
  (h.register_cons path y).of_subperm (List.sublist_cons_self _ _).subperm

/-- Dropping a target takes one registration of it away at most, and none of another. -/
theorem count_le_unregisterTarget (hs : r.removal = .single)
    (hr : ∀ {path x}, x ∈ r.targetsAt path → x.Proper) (hy : y.Proper) (path other : String)
    (x : Target) :
    r.count path x ≤ (r.unregisterTarget other y).count path x
      + if Registration.hits path x (other, y) then 1 else 0 := by
  have hun : r.unregisterTarget other y = r.unregisterFirst other y := by rw [unregisterTarget, hs]
  rw [hun, count, count]
  by_cases hp : path = other
  · subst hp
    rw [targetsAt_unregisterFirst_self]
    by_cases hex : ∃ z ∈ r.targetsAt path, z.same y = true
    · obtain ⟨z, hz, hzy⟩ := hex
      obtain ⟨w, before, after, -, hwy, hsplit, herase⟩ :=
        List.exists_of_eraseP (p := (·.same y)) hz hzy
      have hw : w.Proper :=
        hr (show w ∈ r.targetsAt path from hsplit ▸ List.mem_append_right _ List.mem_cons_self)
      rw [herase, hsplit, List.countP_append, List.countP_append, List.countP_cons,
        Target.same_congr hw hy hwy x]
      simp only [Registration.hits, beq_self_eq_true, Bool.true_and]
      omega
    · have hno : ∀ z ∈ r.targetsAt path, ¬ z.same y = true := fun z hz hzy => hex ⟨z, hz, hzy⟩
      rw [List.eraseP_of_forall_not hno]
      exact Nat.le_add_right _ _
  · rw [targetsAt_unregisterFirst_of_ne hp]
    exact Nat.le_add_right _ _

/-- One registration is dropped, the others are still there. -/
theorem Covers.unregister (h : r.Covers ((path, y) :: regs)) (hs : r.removal = .single)
    (hr : ∀ {path x}, x ∈ r.targetsAt path → x.Proper) (hy : y.Proper) :
    (r.unregisterTarget path y).Covers regs := by
  intro other x hx
  have hcount := h other hx
  have hdrop := count_le_unregisterTarget hs hr hy other path x
  rw [List.countP_cons] at hcount
  omega

/-- Registrations of other targets do not go with it. -/
theorem Covers.unregister_of_apart (h : r.Covers regs) (hs : r.removal = .single)
    (hr : ∀ {path x}, x ∈ r.targetsAt path → x.Proper) (hy : y.Proper)
    (hapart : ∀ z ∈ regs, z.2.same y = false) (path : String) :
    (r.unregisterTarget path y).Covers regs := by
  intro other x hx
  have hcount := h other hx
  have hdrop := count_le_unregisterTarget hs hr hy other path x
  by_cases hhit : Registration.hits other x (path, y) = true
  · -- whatever equals the target is not in the list
    have hzero : regs.countP (Registration.hits other x) = 0 := by
      refine List.countP_eq_zero.2 fun z hz hzx => ?_
      simp only [Registration.hits, Bool.and_eq_true] at hhit hzx
      have hzy := Target.same_trans hzx.2 (Target.same_symm hy hx hhit.2)
      rw [hapart z hz] at hzy
      cases hzy
    omega
  · rw [if_neg hhit] at hdrop
    omega

end Registry

/-- Contents that differ in data only have the same schema, if they are lists. -/
theorem Content.forall_schema_of_bare {P : ListSchema Schema → Prop} {c c' : Content}
    (hbare : c'.bare = c.bare) (h : ∀ l, c = .list l → P l.schema) :
    ∀ l, c' = .list l → P l.schema := by
  rintro l rfl
  exact h ⟨l.schema, c.links⟩ (eq_list_of_bare hbare.symm)

namespace Element

variable {e e' e'' : Element}

/-- The registrations that the items of an element will drop. -/
def stock (e : Element) : List Registration := e.content.items.map e.itemRegistration

/-- What a later element drops, and what its schema is, is what it was. -/
structure Calm (e e' : Element) : Prop where
  stub : e'.stub = e.stub
  choices : e'.choices = e.choices
  content : e'.content.bare = e.content.bare

theorem Calm.refl (e : Element) : e.Calm e := ⟨rfl, rfl, rfl⟩

theorem Calm.trans (h : e.Calm e') (h' : e'.Calm e'') : e.Calm e'' :=
  ⟨h'.stub.trans h.stub, h'.choices.trans h.choices, h'.content.trans h.content⟩

/-- Elements with the same stub will drop the same. -/
theorem stock_of_stub (h : e'.stub = e.stub) : e'.stock = e.stock := by
  obtain ⟨hid, hpath, -, -, -⟩ := stub_eq_iff.1 h
  rw [stock, stock, items_of_stub h, itemRegistration_congr hid hpath]

/-- A value is dropped without a word. -/
theorem calm_store (value : Option LeafValue) (e : Element) : e.Calm (Tree.store value e) := by
  refine ⟨stub_store value e, ?_, ?_⟩ <;> unfold Tree.store <;> split
  · rfl
  · rfl
  · next slot hl => rw [hl]; rfl
  · rfl

/-- Taking a child out drops nothing. -/
theorem calm_detach (e : Element) (name : String) (id : ElementId) : e.Calm (e.detach name id) :=
  have hbare := (e.shrinks_detach name id).bare
  ⟨e.stub_detach name id, choices_of_bare hbare, content_of_bare hbare⟩

/-- A new child is no item. -/
theorem calm_gain (e : Element) (name : String) (id : ElementId) : e.Calm (e.gain name id) := by
  refine ⟨e.stub_gain name id, ?_, ?_⟩ <;> unfold gain <;> split <;> rfl

/-- What an element of a session without choices is like: it is registered under the id of
its slot, its items are proper, it holds no more of them than was put in unless it is an owner,
and neither it nor the entries of its list have choices. -/
structure IsOrderly (owners : List ElementId) (id : ElementId) (e : Element) : Prop where
  id_eq : e.id = id
  registers : e.registers = true
  choices : e.choices = {}
  proper : e.content.Proper
  holdsAtMost : id ∉ owners → e.content.HoldsAtMost
  entries : ∀ l, e.content = .list l → Schema.AllChoiceFree l.schema.entry

variable {owners : List ElementId} {id : ElementId}

/-- An element stays orderly along a calm change. -/
theorem IsOrderly.calm (h : IsOrderly owners id e) (hc : e.Calm e') : IsOrderly owners id e' := by
  obtain ⟨hid, -, hreg, hcore, -⟩ := stub_eq_iff.1 hc.stub
  exact ⟨hid.trans h.id_eq, hreg.trans h.registers, hc.choices.trans h.choices,
    proper_of_stub hc.stub h.proper, fun hno => (Content.tallies_congr hcore).2 (h.holdsAtMost hno),
    Content.forall_schema_of_bare (P := (Schema.AllChoiceFree ·.entry)) hc.content h.entries⟩

/-- An element stays orderly with a content that is. -/
theorem IsOrderly.content (h : IsOrderly owners id e) {c : Content}
    (hbare : c.bare = e.content.bare)
    (hc : c.Proper) (hmost : id ∉ owners → c.HoldsAtMost) :
    IsOrderly owners id { e with content := c } :=
  ⟨h.id_eq, h.registers, h.choices, hc, hmost,
    Content.forall_schema_of_bare (P := (Schema.AllChoiceFree ·.entry)) hbare h.entries⟩

end Element

namespace Tree

variable {t t' : Tree} {id : ElementId} {e : Element} {owners skipped : List ElementId}
  {path : String} {y : Target}

/-! ## What has been told -/

/-- Items of owners are excused: they have not been registered to begin with. -/
def Excused (owners : List ElementId) : Target → Prop
  | .member id _ => id ∈ owners
  | .element _ => False

/-- The events tell of the registry and are matched. -/
structure Told (owners : List ElementId) (t : Tree) : Prop where
  replayed : t.registry = Event.replay t.events
  matched : Event.Matched (Excused owners) t.events
  proper : ∀ {path x}, x ∈ t.registry.targetsAt path → x.Proper

/-- A registry that has been told of is tidy. -/
theorem Told.tidy (h : Told owners t) : t.registry.Tidy := h.replayed ▸ Event.tidy_replay _

/-- What has been told is in the registry and in the events. -/
theorem Told.of_same (h : Told owners t) (hr : t'.registry = t.registry)
    (he : t'.events = t.events) :
    Told owners t' :=
  ⟨by rw [hr, he, h.replayed], he ▸ h.matched, fun hx => h.proper (hr ▸ hx)⟩

/-- An event that does not tell of the registry. -/
theorem Told.tell (h : Told owners t) {event : Event} (hev : event.isTraffic = false) :
    Told owners (t.tell event) where
  replayed := by
    show t.registry = Event.replay (t.events ++ [event])
    rw [Event.replay_concat, Event.follow_of_not_traffic hev, h.replayed]
  matched := Event.matched_concat h.matched fun path target heq => by
    rw [heq] at hev
    cases hev
  proper := h.proper

/-- Registering tells of a new registration. -/
theorem Told.register (h : Told owners t) (hr : e.registers = true) (hy : y.Proper) :
    Told owners (t.register e path y) := by
  rw [Tree.register, if_pos hr]
  constructor
  case replayed =>
    show t.registry.register path y = Event.replay (t.events ++ _)
    rw [Event.replay_concat, ← h.replayed]
    rfl
  case matched => exact Event.matched_concat h.matched fun _ _ heq => by cases heq
  case proper =>
    intro other x hx
    obtain hx | ⟨-, rfl⟩ := Registry.mem_targetsAt_register_iff.1 hx
    · exact h.proper hx
    · exact hy

/-- Unregistering tells of one that is there, or is excused. -/
theorem Told.unregister (h : Told owners t) (hr : e.registers = true)
    (hmatch : Excused owners y ∨ ∃ x ∈ t.registry.targetsAt path, x.same y = true) :
    Told owners (t.unregister e path y) := by
  rw [Tree.unregister, if_pos hr]
  constructor
  case replayed =>
    show t.registry.unregisterTarget path y = Event.replay (t.events ++ _)
    rw [Event.replay_concat, ← h.replayed]
    rfl
  case matched =>
    refine Event.matched_concat h.matched fun other target heq => ?_
    cases heq
    rw [← h.replayed]
    exact hmatch
  case proper => exact fun hx => h.proper (h.tidy.mem_of_mem_unregister hx)

/-! ## Enough to drop -/

/-- What has been told is matched, and what the elements will drop is registered, but for the
items of those that are skipped. -/
structure Covered (owners skipped : List ElementId) (t : Tree) : Prop extends Told owners t where
  orderly : ∀ {id e}, t.element? id = some e → e.IsOrderly owners id
  standing : ∀ {id e}, t.element? id = some e → t.registry.Covers [(e.path, .element id)]
  stocked : ∀ {id e}, t.element? id = some e → id ∉ skipped → t.registry.Covers e.stock

theorem covered_empty : Covered owners skipped {} where
  replayed := rfl
  matched := Event.matched_nil
  proper := fun hx => by cases hx
  orderly := fun he => by simp [element?] at he
  standing := fun he => by simp [element?] at he
  stocked := fun he => by simp [element?] at he

/-- An element whose items are registered need not be skipped. -/
theorem Covered.unskip (h : Covered owners (id :: skipped) t)
    (hid : id ∉ skipped → ∀ e, t.element? id = some e → t.registry.Covers e.stock) :
    Covered owners skipped t :=
  { h with
    stocked := fun {x e} he hno => by
      by_cases hx : x = id
      · subst hx
        exact hid hno e he
      · exact h.stocked he (List.not_mem_cons_of_ne_of_not_mem hx hno) }

/-- Elements that are gone do not matter, as long as nothing is told. -/
theorem Covered.of_elements (h : Covered owners skipped t) (hr : t'.registry = t.registry)
    (hev : t'.events = t.events)
    (hel : ∀ {id e'}, t'.element? id = some e' → ∃ e, t.element? id = some e ∧ e.Calm e') :
    Covered owners skipped t' where
  toTold := h.toTold.of_same hr hev
  orderly := fun he' => by
    obtain ⟨e, he, hcalm⟩ := hel he'
    exact (h.orderly he).calm hcalm
  standing := fun he' => by
    obtain ⟨e, he, hcalm⟩ := hel he'
    rw [hr, (Element.stub_eq_iff.1 hcalm.stub).2.1]
    exact h.standing he
  stocked := fun he' hno => by
    obtain ⟨e, he, hcalm⟩ := hel he'
    rw [hr, Element.stock_of_stub hcalm.stub]
    exact h.stocked he hno

/-- Registering more does no harm. -/
theorem Covered.register (h : Covered owners skipped t) (hr : e.registers = true) (hy : y.Proper) :
    Covered owners skipped (t.register e path y) := by
  have hreg : (t.register e path y).registry = t.registry.register path y := by
    rw [Tree.register, if_pos hr]
  have hel := element?_congr (slots_register t e path y)
  exact
    { toTold := h.toTold.register hr hy
      orderly := fun he => h.orderly (hel _ ▸ he)
      standing := fun he => hreg ▸ (h.standing (hel _ ▸ he)).register path y
      stocked := fun he hno => hreg ▸ (h.stocked (hel _ ▸ he) hno).register path y }

/-- **Dropping a target harms its owner only**, which is to be gone or skipped. -/
theorem Covered.unregister (h : Covered owners skipped t) (hr : e.registers = true) (hy : y.Proper)
    (hmatch : Excused owners y ∨ ∃ x ∈ t.registry.targetsAt path, x.same y = true)
    (hfree : ∀ e', t.element? y.owner = some e' → y.owner ∈ skipped ∧ ∀ id, y ≠ .element id) :
    Covered owners skipped (t.unregister e path y) := by
  have hreg : (t.unregister e path y).registry = t.registry.unregisterTarget path y := by
    rw [Tree.unregister, if_pos hr]
  have hel := element?_congr (slots_unregister t e path y)
  refine
    { toTold := h.toTold.unregister hr hmatch
      orderly := fun he => h.orderly (hel _ ▸ he)
      standing := fun {x xe} he => ?_
      stocked := fun {x xe} he hno => ?_ }
  · rw [hel] at he
    rw [hreg]
    refine (h.standing he).unregister_of_apart h.tidy.single h.proper hy (fun z hz => ?_) path
    rw [List.mem_singleton.1 hz, Bool.eq_false_iff]
    intro hsame
    obtain rfl : x = y.owner := Target.owner_eq_of_same hsame
    cases y with
    | element id => exact (hfree xe he).2 id rfl
    | member id v => cases hsame
  · rw [hel] at he
    rw [hreg]
    refine (h.stocked he hno).unregister_of_apart h.tidy.single h.proper hy (fun z hz => ?_) path
    rw [Bool.eq_false_iff]
    intro hsame
    obtain ⟨v, -, rfl⟩ := List.mem_map.1 hz
    have howner : xe.id = y.owner := Target.owner_eq_of_same hsame
    rw [(h.orderly he).id_eq] at howner
    exact hno (howner ▸ (hfree xe (howner ▸ he)).1)

/-- Items are dropped one after another. -/
theorem Covered.unregisterMembers {items : List Value} (h : Covered owners skipped t)
    (hr : e.registers = true) (hitems : ∀ v ∈ items, v.Proper)
    (hfree : ∀ e', t.element? e.id = some e' → e.id ∈ skipped)
    (hcovers : e.id ∉ owners → t.registry.Covers (items.map e.itemRegistration))
    {regs : List Registration} (hregs : t.registry.Covers regs)
    (hapart : ∀ z ∈ regs, ∀ v, z.2.same (.member e.id v) = false) :
    let t' := items.foldl (fun t v => t.unregisterMember e v) t
    Covered owners skipped t' ∧ t'.registry.Covers regs := by
  induction items generalizing t with
  | nil => exact ⟨h, hregs⟩
  | cons v items ih =>
    have hv : (Target.member e.id v).Proper := hitems v List.mem_cons_self
    have hreg := registry_unregisterMember (t := t) hr v
    have hmatch : Excused owners (.member e.id v) ∨
        ∃ x ∈ t.registry.targetsAt (e.memberPath v), x.same (.member e.id v) = true := by
      by_cases hown : e.id ∈ owners
      · exact .inl hown
      · exact .inr ((hcovers hown).exists_same hv)
    rw [List.foldl_cons]
    refine ih (h.unregister hr hv hmatch fun e' he' => ⟨hfree e' he', fun _ h => by cases h⟩)
      (fun w hw => hitems w (List.mem_cons_of_mem v hw)) (fun e' he' => hfree e' ?_)
      (fun hown => ?_) ?_
    · exact element?_congr (slots_unregister t e _ _) _ ▸ he'
    · rw [hreg]
      exact (hcovers hown).unregister h.tidy.single h.proper hv
    · rw [hreg]
      exact hregs.unregister_of_apart h.tidy.single h.proper hv (fun z hz => hapart z hz v) _

end Tree

end DataTree
