import DataTree.Proofs.Items
import DataTree.Proofs.Mirror.Items
import DataTree.Proofs.Mirror.Operations

/-!
# DataTree.Proofs.Mirror.Backed

Registrations that have something behind them.

An element is registered at its path while it is there, and its items at theirs while it
holds them.  Where an operation fails halfway the registry can lack some of these; here
the question is whether it has more.  `t.Placed x` says that the element `x` is registered
at its path at most, and `t.Backed x extra` that its items are registered at most as often
as it holds them, but for those in `extra`.

No operation on anything but the items of `x` breaks this as long as `x` holds no supplied base
and nothing in a box (`deregisters_runUnset`, `entryStable_deregisters`): where items of a leaf-list
go, their registrations go.
-/

namespace DataTree

open Edit Outcome

/-! ## What is behind a registration -/

namespace Element

variable {e e' : Element}

/-- The registration of an element itself. -/
def standing (e : Element) : List Registration :=
  if e.registers then [(e.path, .element e.id)] else []

/-- The registrations of items of an element. -/
def backing (e : Element) (vs : List Value) : List Registration :=
  if e.registers then vs.map e.itemRegistration else []

/-- What decides about the registrations of an element and of its items. -/
def stub (e : Element) : ElementId × String × Bool × Content.Core × Bool :=
  (e.id, e.path, e.registers, e.content.core, e.content.isCustom)

/-- The stub of an element is what its registrations depend on. -/
theorem stub_eq_iff : e'.stub = e.stub ↔ e'.id = e.id ∧ e'.path = e.path ∧
    e'.registers = e.registers ∧ e'.content.core = e.content.core ∧
    e'.content.isCustom = e.content.isCustom := by
  simp [stub]

/-- Elements with the same stub hold the same items. -/
theorem items_of_stub (h : e'.stub = e.stub) : e'.content.items = e.content.items :=
  Content.items_congr (stub_eq_iff.1 h).2.2.2.1

/-- The registration of an item depends on the identifier and the path. -/
theorem itemRegistration_congr (hid : e'.id = e.id) (hpath : e'.path = e.path) :
    e'.itemRegistration = e.itemRegistration := by
  funext v
  simp [itemRegistration, memberPath, hid, hpath]

/-- Which registrations items back depends on the identifier, the path and the flag. -/
theorem backing_congr (hid : e'.id = e.id) (hpath : e'.path = e.path)
    (hreg : e'.registers = e.registers) : e'.backing = e.backing := by
  funext vs
  rw [backing, backing, itemRegistration_congr hid hpath, hreg]

/-- More items back more registrations. -/
theorem subperm_backing (e : Element) {vs ws : List Value} (h : vs.Subperm ws) :
    (e.backing vs).Subperm (e.backing ws) := by
  unfold backing
  split
  · exact map_subperm h _
  · exact .refl _

/-- Items back their registrations one by one. -/
theorem backing_append (e : Element) (vs ws : List Value) :
    e.backing (vs ++ ws) = e.backing vs ++ e.backing ws := by
  unfold backing
  split
  · exact List.map_append
  · rfl

/-- An element with the same stub stands for the same registrations. -/
theorem standing_of_stub (h : e'.stub = e.stub) : e'.standing = e.standing := by
  obtain ⟨hid, hpath, hreg, -, -⟩ := stub_eq_iff.1 h
  rw [standing, standing, hid, hpath, hreg]

/-- Elements with the same stub back the same registrations. -/
theorem backing_of_stub (h : e'.stub = e.stub) :
    e'.backing e'.content.items = e.backing e.content.items := by
  obtain ⟨hid, hpath, hreg, -, -⟩ := stub_eq_iff.1 h
  rw [backing_congr hid hpath hreg, items_of_stub h]

/-- Whether the content is proper can be read off the stub. -/
theorem proper_of_stub (h : e'.stub = e.stub) (he : e.content.Proper) : e'.content.Proper :=
  (Content.proper_congr (stub_eq_iff.1 h).2.2.2.1).2 he

theorem stub_store (value : Option LeafValue) (e : Element) :
    (Tree.store value e).stub = e.stub := by
  unfold Tree.store
  split
  · next slot hl => exact stub_eq_iff.2 ⟨rfl, rfl, rfl, by rw [hl]; rfl, by rw [hl]; rfl⟩
  · rfl

theorem stub_detach (e : Element) (name : String) (id : ElementId) :
    (e.detach name id).stub = e.stub := by
  unfold detach
  split
  · split <;> rfl
  · next l hl => exact stub_eq_iff.2 ⟨rfl, rfl, rfl, by rw [hl]; rfl, by rw [hl]; rfl⟩
  · rfl

theorem stub_relist (f : KeyedList → KeyedList) (e : Element) :
    (Tree.relist f e).stub = e.stub := by
  unfold Tree.relist
  split
  · next l hl => exact stub_eq_iff.2 ⟨rfl, rfl, rfl, by rw [hl]; rfl, by rw [hl]; rfl⟩
  · rfl

theorem stub_gain (e : Element) (name : String) (id : ElementId) :
    (e.gain name id).stub = e.stub := by
  unfold gain
  split <;> rfl

end Element

namespace Tree

variable {t t' : Tree} {id x : ElementId} {e : Element} {n : Nat} {extra : List Registration}

/-- The registration that an element is to have; none if it is gone. -/
def standing (t : Tree) (x : ElementId) : List Registration :=
  ((t.element? x).map Element.standing).getD []

/-- The registrations that the items of an element are to have; none if it is gone. -/
def backing (t : Tree) (x : ElementId) : List Registration :=
  match t.element? x with
  | some e => e.backing e.content.items
  | none => []

/-- What an element backs in the tree. -/
theorem backing_of_element? (he : t.element? x = some e) :
    t.backing x = e.backing e.content.items := by
  rw [backing, he]

/-- An element is registered at its own path at most. -/
def Placed (t : Tree) (x : ElementId) : Prop :=
  ∀ path, t.registry.count path (.element x) ≤
    (t.standing x).countP (Registration.hits path (.element x))

/-- The items of an element are registered at most as often as `regs` has them. -/
def Bounded (t : Tree) (x : ElementId) (regs : List Registration) : Prop :=
  ∀ path {v : Value}, v.Proper →
    t.registry.count path (.member x v) ≤ regs.countP (Registration.hits path (.member x v))

/-- The items of an element are registered at most as often as it holds them, but for those in
`extra`. -/
structure Backed (t : Tree) (x : ElementId) (extra : List Registration) : Prop where
  proper : ∀ {path v}, .member x v ∈ t.registry.targetsAt path → v.Proper
  bounded : t.Bounded x (t.backing x ++ extra)

/-- An element holds no supplied base and nothing in a box. -/
def Common (t : Tree) (x : ElementId) : Prop :=
  ∀ e, t.element? x = some e → e.content.isCustom = false

/-- All items of all contents are proper. -/
def Fitted (t : Tree) : Prop := ∀ {x e}, t.element? x = some e → e.content.Proper

/-- The registry is in order, and so are the items. -/
structure Ready (t : Tree) (n : Nat) : Prop where
  accounts : t.Accounts n
  fitted : t.Fitted

/-- The registrations for an element get fewer, and those of its items at least along with the
items, if it is a common one. -/
structure Deregisters (x : ElementId) (t t' : Tree) : Prop where
  owned : ∀ path, (t'.registry.ownedAt path x).Sublist (t.registry.ownedAt path x)
  element : ∀ {e'}, t'.element? x = some e' →
    ∃ e, t.element? x = some e ∧ e'.path = e.path ∧ e'.registers = e.registers
  placed : t.Placed x → t'.Placed x
  backed : t.Common x → t'.Common x ∧ ∀ {extra}, t.Backed x extra → t'.Backed x extra

instance (x : ElementId) : IsPreorder Tree (Deregisters x) where
  refl _ := ⟨fun _ => .refl _, fun he => ⟨_, he, rfl, rfl⟩, fun h => h, fun h => ⟨h, fun hb => hb⟩⟩
  trans _ _ _ h h' :=
    { owned := fun path => (h'.owned path).trans (h.owned path)
      element := fun he => by
        obtain ⟨e₂, he₂, hpath₂, hreg₂⟩ := h'.element he
        obtain ⟨e₁, he₁, hpath₁, hreg₁⟩ := h.element he₂
        exact ⟨e₁, he₁, hpath₂.trans hpath₁, hreg₂.trans hreg₁⟩
      placed := fun hp => h'.placed (h.placed hp)
      backed := fun hc => by
        obtain ⟨hc₂, hb₂⟩ := h.backed hc
        obtain ⟨hc₃, hb₃⟩ := h'.backed hc₂
        exact ⟨hc₃, fun hb => hb₃ (hb₂ hb)⟩ }

/-- Registered items are proper values as long as none is registered anew. -/
theorem proper_of_sublist (h : t.Backed x extra)
    (hown : ∀ path, (t'.registry.ownedAt path x).Sublist (t.registry.ownedAt path x))
    {path : String} {v : Value} (hv : .member x v ∈ t'.registry.targetsAt path) : v.Proper :=
  h.proper (Registry.mem_ownedAt.1 ((hown path).subset (Registry.mem_ownedAt.2 ⟨hv, rfl⟩))).1

theorem standing_of_stub (h : (t'.element? x).map Element.stub = (t.element? x).map Element.stub) :
    t'.standing x = t.standing x := by
  unfold standing
  cases he : t.element? x <;> cases he' : t'.element? x <;> rw [he, he'] at h
  · cases h
  · cases h
  · rw [Option.map_some, Option.map_some, Element.standing_of_stub (Option.some.inj h)]

/-- An element with the same stub backs the same registrations in the tree. -/
theorem backing_of_stub (h : (t'.element? x).map Element.stub = (t.element? x).map Element.stub) :
    t'.backing x = t.backing x := by
  unfold backing
  cases he : t.element? x <;> cases he' : t'.element? x <;> rw [he, he'] at h
  · cases h
  · cases h
  · exact Element.backing_of_stub (Option.some.inj h)

/-- What leaves an element as it is and registers nothing for it. -/
theorem deregisters_of_stub (h : (t'.element? x).map Element.stub = (t.element? x).map Element.stub)
    (hown : ∀ path, (t'.registry.ownedAt path x).Sublist (t.registry.ownedAt path x)) :
    t.Deregisters x t' := by
  have hel : ∀ {e'}, t'.element? x = some e' → ∃ e, t.element? x = some e ∧ e'.stub = e.stub := by
    intro e' he'
    rw [he', Option.map_some] at h
    obtain ⟨e, he, hs⟩ := Option.map_eq_some_iff.1 h.symm
    exact ⟨e, he, hs.symm⟩
  constructor
  case owned => exact hown
  case element =>
    intro e' he'
    obtain ⟨e, he, hs⟩ := hel he'
    obtain ⟨-, hpath, hreg, -, -⟩ := Element.stub_eq_iff.1 hs
    exact ⟨e, he, hpath, hreg⟩
  case placed =>
    intro hp path
    rw [standing_of_stub h]
    exact Nat.le_trans (Registry.count_le_of_sublist hown) (hp path)
  case backed =>
    intro hc
    refine ⟨fun e' he' => ?_, fun hb => ⟨proper_of_sublist hb hown, fun path v hv => ?_⟩⟩
    · obtain ⟨e, he, hs⟩ := hel he'
      rw [(Element.stub_eq_iff.1 hs).2.2.2.2, hc e he]
    · rw [backing_of_stub h]
      exact Nat.le_trans (Registry.count_le_of_sublist hown) (hb.bounded path hv)

/-- Taking registrations away deregisters. -/
theorem deregisters_of_slots (hs : t'.slots = t.slots)
    (hown : ∀ path, (t'.registry.ownedAt path x).Sublist (t.registry.ownedAt path x)) :
    t.Deregisters x t' :=
  deregisters_of_stub (by rw [element?_congr hs]) hown

/-- A change outside of the slots and the registry takes nothing back. -/
theorem Deregisters.of_slots {t₀ : Tree} (h : t₀.Deregisters x t) (hs : t'.slots = t.slots)
    (hr : t'.registry = t.registry) : t₀.Deregisters x t' :=
  trans_of (Deregisters x) h (deregisters_of_slots hs fun path => by rw [hr])

/-- A tree is ready by its slots and its registry. -/
theorem Ready.of_slots (h : t.Ready n) (hs : t'.slots = t.slots) (hr : t'.registry = t.registry) :
    t'.Ready n :=
  ⟨h.accounts.of_slots hs hr, fun he => h.fitted (element?_congr hs _ ▸ he)⟩

/-! ## Changing elements -/

/-- A tree stays fitted where the changed element gets a proper content. -/
theorem fitted_modifyElement {f : Element → Element} (h : t.Fitted)
    (hf : ∀ e, t.element? id = some e → (f e).content.Proper) : (t.modifyElement id f).Fitted := by
  intro x e' he'
  obtain ⟨e, he, ⟨rfl, rfl⟩ | ⟨-, rfl⟩⟩ := modifyElement_cases he'
  · exact hf e he
  · exact h he

/-- A change of an element that keeps its stub takes no registration. -/
theorem deregisters_modifyElement {f : Element → Element}
    (h : x = id → ∀ e, t.element? id = some e → (f e).stub = e.stub) :
    t.Deregisters x (t.modifyElement id f) :=
  deregisters_of_stub (map_element?_modifyElement h) fun _ => .refl _

/-- A change that does not concern registrations. -/
theorem deregisters_update {f : Element → Element} (h : ∀ e, (f e).stub = e.stub) :
    Leads (Given (Ready · n) (Deregisters x)) (update id f) := by
  refine leads_update fun t e _ ht => ⟨⟨?_, ?_⟩, deregisters_modifyElement fun _ e _ => h e⟩
  · refine ht.accounts.modifyElement fun e _ => ?_
    obtain ⟨hid, hpath, hreg, -, -⟩ := Element.stub_eq_iff.1 (h e)
    exact ⟨hid, hpath, hreg⟩
  · exact fitted_modifyElement ht.fitted fun e he => Element.proper_of_stub (h e) (ht.fitted he)

/-! ## Dropping registrations -/

/-- Unregistering an item adds no registration. -/
theorem ownedAt_sublist_unregisterMember (t : Tree) (e : Element) (v : Value) (path : String)
    (x : ElementId) :
    ((t.unregisterMember e v).registry.ownedAt path x).Sublist (t.registry.ownedAt path x) := by
  unfold unregisterMember unregister
  split
  · exact t.registry.ownedAt_sublist_unregisterTarget _ _ _ _
  · exact .refl _

/-- Nor does unregistering several. -/
theorem ownedAt_sublist_foldl (e : Element) (items : List Value) (t : Tree) (path : String)
    (x : ElementId) :
    ((items.foldl (fun t v => t.unregisterMember e v) t).registry.ownedAt path x).Sublist
      (t.registry.ownedAt path x) := by
  induction items generalizing t with
  | nil => exact .refl _
  | cons v items ih => exact (ih _).trans (ownedAt_sublist_unregisterMember t e v path x)

/-- Each of the items is dropped once. -/
theorem count_foldl_unregisterMember_le (hs : t.registry.removal = .single)
    (hr : e.registers = true) {items : List Value} (hitems : ∀ v ∈ items, v.Proper) (path : String)
    {y : Target} (hy : y.Proper) :
    (items.foldl (fun t v => t.unregisterMember e v) t).registry.count path y
      ≤ t.registry.count path y -
        (items.map e.itemRegistration).countP (Registration.hits path y) := by
  induction items generalizing t with
  | nil => simp
  | cons v items ih =>
    rw [List.foldl_cons, List.map_cons, List.countP_cons]
    have hreg := registry_unregisterMember (t := t) hr v
    have hrest := ih (t := t.unregisterMember e v)
      (by rw [hreg, Registry.removal_unregisterTarget, hs]) fun w hw =>
        hitems w (List.mem_cons_of_mem v hw)
    have hv : (Target.member e.id v).Proper := hitems v List.mem_cons_self
    have hone := t.registry.count_unregisterTarget_le path (e.memberPath v) hs hy hv
    rw [← hreg] at hone
    have hitem : e.itemRegistration v = (e.memberPath v, .member e.id v) := rfl
    rw [hitem]
    omega

/-- Once the items of a common element are dropped, only the extra ones are registered. -/
theorem Backed.count_foldl_le (h : t.Backed x extra) (hr : t.Ready n) (he : t.element? x = some e)
    (hc : e.content.isCustom = false) (t₁ : Tree) (h₁ : t₁.registry = t.registry) (path : String)
    {v : Value} (hv : v.Proper) :
    (e.content.members.foldl (fun t v => t.unregisterMember e v) t₁).registry.count
      path (.member x v) ≤ extra.countP (Registration.hits path (.member x v)) := by
  have hitems := Content.items_of_not_custom hc
  have hcount := h.bounded path hv
  rw [backing_of_element? he, hitems, List.countP_append, Element.backing] at hcount
  by_cases hreg : e.registers = true
  · rw [if_pos hreg] at hcount
    have hfold :=
      count_foldl_unregisterMember_le (t := t₁) (by rw [h₁, hr.accounts.tidy.single]) hreg
      (hitems ▸ (hr.fitted he).items) path (show (Target.member x v).Proper from hv)
    rw [h₁] at hfold
    omega
  · rw [if_neg hreg, List.countP_nil, Nat.zero_add] at hcount
    refine Nat.le_trans (Registry.count_le_of_sublist fun _ => ownedAt_sublist_foldl e _ t₁ _ _) ?_
    rw [h₁]
    exact hcount

/-- Nothing is registered when an element is dropped. -/
theorem ownedAt_sublist_drop (t : Tree) (id : ElementId) (path : String) (x : ElementId) :
    ((t.drop id).registry.ownedAt path x).Sublist (t.registry.ownedAt path x) := by
  cases he : t.element? id with
  | none => rw [drop_of_none he]
  | some e =>
    refine .trans ?_ (ownedAt_sublist_foldl e e.content.members (t.vacate id) path x)
    rw [registry_drop he]
    split
    · exact Registry.ownedAt_sublist_unregisterTarget _ _ _ _ _
    · exact .refl _

/-- An element that was dropped stands for nothing. -/
theorem standing_drop_self (t : Tree) (x : ElementId) : (t.drop x).standing x = [] := by
  rw [standing, element?_drop, if_pos rfl, Option.map_none, Option.getD_none]

/-- An element that is dropped is not registered any longer. -/
theorem Placed.drop (hp : t.Placed x) (h : t.Ready n) : (t.drop x).Placed x := by
  cases he : t.element? x with
  | none =>
    rw [drop_of_none he]
    exact hp
  | some e =>
    intro path
    have hid : e.id = x := h.accounts.id_eq he
    have hcount := hp path
    rw [standing, he, Option.map_some, Option.getD_some, Element.standing, hid] at hcount
    rw [standing_drop_self, List.countP_nil]
    have hsingle := (echoes_foldl_unregisterMember e e.content.members (t.vacate x)).removal.trans
      h.accounts.tidy.single
    have hle : (e.content.members.foldl (fun t v => t.unregisterMember e v)
      (t.vacate x)).registry.count path
        (.element x) ≤ t.registry.count path (.element x) :=
      Registry.count_le_of_sublist fun path => ownedAt_sublist_foldl e _ (t.vacate x) path x
    rw [registry_drop he]
    by_cases hreg : e.registers = true
    · rw [if_pos hreg, List.countP_singleton] at hcount
      have hone := Registry.count_unregisterTarget_le _ path e.path hsingle
        (show (Target.element x).Proper from trivial) (show (Target.element x).Proper from trivial)
      rw [if_pos hreg]
      omega
    · rw [if_neg hreg, List.countP_nil] at hcount
      rw [if_neg hreg]
      omega

/-- Neither are its items, if it is a common one. -/
theorem Backed.drop (hb : t.Backed x extra) (h : t.Ready n) (he : t.element? x = some e)
    (hc : e.content.isCustom = false) : (t.drop x).Backed x extra := by
  refine ⟨proper_of_sublist hb fun path => ownedAt_sublist_drop t x path x, fun path v hv => ?_⟩
  have hnone : (t.drop x).backing x = [] := by rw [backing, element?_drop, if_pos rfl]
  rw [hnone, List.nil_append]
  refine Nat.le_trans (Registry.count_le_of_sublist fun path => ?_)
    (hb.count_foldl_le h he hc (t.vacate x) rfl path hv)
  rw [registry_drop he]
  split
  · exact Registry.ownedAt_sublist_unregisterTarget _ _ _ _ _
  · exact .refl _

/-- Dropping an element takes registrations away only. -/
theorem deregisters_drop (h : t.Ready n) (id : ElementId) :
    (t.drop id).Ready n ∧ t.Deregisters x (t.drop id) := by
  refine ⟨⟨h.accounts.drop id, fun {y e'} he' => h.fitted (element?_drop_eq_some_iff.1 he').2⟩, ?_⟩
  have hown := fun path => ownedAt_sublist_drop t id path x
  by_cases hx : x = id
  · subst hx
    cases he : t.element? x with
    | none =>
      rw [drop_of_none he]
      exact refl_of (Deregisters x) t
    | some e =>
      have hgone : ∀ {e'}, (t.drop x).element? x ≠ some e' := fun he' =>
        (element?_drop_eq_some_iff.1 he').1 rfl
      exact
        { owned := hown
          element := fun he' => (hgone he').elim
          placed := fun hp => hp.drop h
          backed := fun hc => ⟨fun _ he' => (hgone he').elim, fun hb => hb.drop h he (hc e he)⟩ }
  · exact deregisters_of_stub (by rw [element?_drop, if_neg hx]) hown

/-- Removing a subtree takes registrations away only. -/
theorem deregisters_removeSubtree (id : ElementId) :
    Leads (Given (Ready · n) (Deregisters x)) (removeSubtree id) := by
  unfold removeSubtree get
  refine (leads_reading _).bind fun doomed => (leads_reading _).bind fun e => ?_
  refine leads_changing fun t ht => ?_
  have hdetach : (t.detach e).Ready n ∧ t.Deregisters x (t.detach e) := by
    refine ⟨⟨ht.accounts.detach e, ?_⟩, ?_⟩
    · unfold detach
      split
      · exact fitted_modifyElement ht.fitted fun p hp =>
          Element.proper_of_stub (p.stub_detach e.name e.id) (ht.fitted hp)
      · exact ht.fitted
    · unfold detach
      split
      · exact deregisters_modifyElement fun _ p _ => p.stub_detach e.name e.id
      · exact refl_of (Deregisters x) t
  obtain ⟨hready, hlose⟩ := hdetach
  generalize t.detach e = t' at hready hlose
  induction doomed generalizing t' with
  | nil => exact ⟨hready, hlose⟩
  | cons id doomed ih =>
    obtain ⟨hready', hlose'⟩ := deregisters_drop hready id
    exact ih (t'.drop id) hready' (trans_of (Deregisters x) hlose hlose')

/-! ## Unsetting -/

/-- An element whose content has lost its items is worn, and with them go their registrations. -/
theorem deregisters_cleared (h : t.Ready n) (he : t.element? id = some e) {vs : List Value}
    {c : Content} (hclear : e.content.clear = .ok (vs, c)) :
    let t' := e.content.members.foldl (fun t item => t.unregisterMember e item) (t.withContent id c)
    t'.Ready n ∧ t.Deregisters x t' := by
  intro t'
  have hslots : t'.slots = (t.withContent id c).slots :=
    (foldl_unregisterMember e e.content.members _).1
  have hfit : (t.withContent id c).Fitted :=
    fitted_modifyElement h.fitted fun _ _ => Content.proper_of_clear hclear (h.fitted he)
  have ha : (t.withContent id c).Accounts n := h.accounts.modifyElement fun _ _ => ⟨rfl, rfl, rfl⟩
  refine ⟨⟨ha.unregisterMembers e _, fun hx => hfit (element?_congr hslots _ ▸ hx)⟩, ?_⟩
  have hown : ∀ path, (t'.registry.ownedAt path x).Sublist
      (t.registry.ownedAt path x) := fun path =>
    ownedAt_sublist_foldl e e.content.members (t.withContent id c) path x
  by_cases hx : x = id
  · subst hx
    have he' : t'.element? x = some { e with content := c } := by
      rw [element?_congr hslots]
      exact element?_modifyElement_self he
    constructor
    case owned => exact hown
    case element =>
      intro e₁ he₁
      obtain rfl := Option.some.inj (he'.symm.trans he₁)
      exact ⟨e, he, rfl, rfl⟩
    case placed =>
      intro hp path
      have hstanding : t'.standing x = t.standing x := by
        rw [standing, standing, he', he]
        rfl
      rw [hstanding]
      exact Nat.le_trans (Registry.count_le_of_sublist hown) (hp path)
    case backed =>
      intro hc
      have hcommon := hc e he
      refine ⟨fun e₁ he₁ => ?_, fun hb => ⟨proper_of_sublist hb hown, fun path v hv => ?_⟩⟩
      · obtain rfl := Option.some.inj (he'.symm.trans he₁)
        rw [← hcommon]
        exact Content.isCustom_of_bare (Content.sameFrame_of_clear hclear).1
      · refine Nat.le_trans (hb.count_foldl_le h he hcommon (t.withContent x c) rfl path hv) ?_
        rw [List.countP_append]
        exact Nat.le_add_left _ _
  · refine deregisters_of_stub ?_ hown
    rw [element?_congr hslots, withContent, element?_modifyElement_of_ne hx]

/-- Clearing takes registrations away only. -/
theorem deregisters_clear (id : ElementId) :
    Leads (Given (Ready · n) (Deregisters x)) (clear id) := by
  unfold clear get
  refine leads_reading_bind fun t e he => ?_
  rw [element_eq_ok_iff] at he
  split
  · next l hl =>
    refine rel_bind (fun ht => ?_) fun _ t' _ =>
      leads_forM (fun entry _ => deregisters_removeSubtree entry) t'
    rw [on_update, element, he]
    have hstub : { e with content := .list { l with members := [] } }.stub = e.stub :=
      Element.stub_eq_iff.2 ⟨rfl, rfl, rfl, by rw [hl]; rfl, by rw [hl]; rfl⟩
    have hsame : ∀ e', t.element? id = some e' →
        { e' with content := .list { l with members := [] } }.stub = e'.stub := fun e' he' => by
      obtain rfl : e = e' := Option.some.inj (he.symm.trans he')
      exact hstub
    refine ⟨⟨ht.accounts.modifyElement fun _ _ => ⟨rfl, rfl, rfl⟩, fitted_modifyElement ht.fitted
      fun e' he' => Element.proper_of_stub (hsame e' he') (ht.fitted he')⟩,
        deregisters_modifyElement fun _ => hsame⟩
  · refine rel_bind (leads_ofExcept _ t) fun r t₀ hr ht => ?_
    obtain ⟨vs, c⟩ := r
    rw [on_ofExcept, Prod.mk.injEq] at hr
    obtain ⟨hclear, rfl⟩ := hr
    rw [on_bind, on_update, element, he]
    exact deregisters_cleared ht he hclear

/-- A hook takes registrations away only. -/
theorem deregisters_runUnset (hook : Unset) :
    Leads (Given (Ready · n) (Deregisters x)) (runUnset hook) := by
  cases hook with
  | contents id =>
    exact (leads_reading _).bind fun _ => leads_forM fun holder _ => deregisters_clear holder
  | subtree id => exact deregisters_removeSubtree id

theorem deregisters_mark (id : ElementId) (changed : Bool) :
    Leads (Given (Ready · n) (Deregisters x)) (update id fun e => { e with changed }) :=
  deregisters_update fun _ => rfl

/-- Carrying out a plan takes registrations away only. -/
theorem deregisters_commit (p : Plan) : Leads (Given (Ready · n) (Deregisters x)) (commit p) :=
  (leads_forM fun hook _ => deregisters_runUnset hook).bind fun _ =>
    leads_forM fun id _ => deregisters_mark id true

/-! ## Building and entries -/

/-- The registrations for an element that was there before slot `n` get fewer. -/
def DeregistersOld (n : Nat) (x : ElementId) (t t' : Tree) : Prop :=
  x.index < n → t.Deregisters x t'

instance (n : Nat) (x : ElementId) : IsPreorder Tree (DeregistersOld n x) where
  refl t _ := refl_of (Deregisters x) t
  trans _ _ _ h h' hx := trans_of (Deregisters x) (h hx) (h' hx)

/-- What takes registrations away does so for the elements of before. -/
theorem leads_deregistersOld {α : Type} {edit : Edit α}
    (h : Leads (Given (Ready · n) (Deregisters x)) edit) :
    Leads (Given (Ready · n) (DeregistersOld n x)) edit :=
  fun t ht => ⟨(h t ht).1, fun _ => (h t ht).2⟩

/-- Making another element leaves the registrations for an element alone. -/
theorem deregisters_wrap {content : Content} {spec : ElementSpec} (hc : content.Proper) :
    Leads (Given (Ready · n) (DeregistersOld n x)) (wrap content spec) := by
  refine leads_wrap fun t hparent h => ?_
  have haccounts : ((wrap content spec).on t).2.Accounts n := accounts_wrap t h.accounts
  rw [on_wrap content hparent] at haccounts
  have hlink : (t.link spec).Fitted ∧ t.Deregisters x (t.link spec) := by
    unfold link
    split
    · exact ⟨fitted_modifyElement h.fitted fun p hp =>
          Element.proper_of_stub (p.stub_gain spec.name _) (h.fitted hp),
        deregisters_modifyElement fun _ p _ => p.stub_gain spec.name _⟩
    · exact ⟨h.fitted, refl_of (Deregisters x) t⟩
  refine ⟨⟨haccounts, fun {y e'} he' => ?_⟩, fun hx =>
    trans_of (Deregisters x) hlink.2 (deregisters_of_stub ?_ fun path => ?_)⟩
  · obtain ⟨-, rfl⟩ | he' := place_cases he'
    · exact hc
    · exact hlink.1 he'
  · rw [element?_place, if_neg]
    rintro rfl
    rw [size_slots_link] at hx
    exact absurd h.accounts.size_le (Nat.not_le.2 hx)
  · rw [registry_place, registry_register]
    split
    · rw [Registry.ownedAt_register, if_neg, List.append_nil]
      rintro ⟨-, howner⟩
      obtain rfl : (⟨t.slots.size⟩ : ElementId) = x := howner
      exact absurd h.accounts.size_le (Nat.not_le.2 hx)
    · exact .refl _

/-- Building adds no registration to an element that was there before. -/
theorem deregisters_build (schema : Schema) (spec : ElementSpec) :
    Leads (Given (Ready · n) (DeregistersOld n x)) (build schema spec) := by
  have hstable : BuildStable (Given (Ready · n) (DeregistersOld n x)) spec.registers (fun _ => True)
      fun _ => True :=
    { wrap := fun _ _ hc _ _ => deregisters_wrap (Content.proper_of_isInitial hc)
      field := fun _ => leads_deregistersOld (deregisters_update fun _ => rfl)
      remove := fun id => leads_deregistersOld (deregisters_removeSubtree id) }
  exact hstable.build schema spec (schema.uses_of_forall (fun _ => trivial) fun _ => trivial) rfl

/-- What is known of a tree stays known along with what it has come to since. -/
theorem leads_keeping_of_given {α : Type} {I : Tree → Prop} {R : Tree → Tree → Prop}
    [IsPreorder Tree R] {edit : Edit α} (h : Leads (Given I R) edit) (t₀ : Tree) :
    Leads (Keeping fun t => I t ∧ R t₀ t) edit := by
  intro t ht
  obtain ⟨hI, hR⟩ := h t ht.1
  exact ⟨hI, trans_of R ht.2 hR⟩

/-- Assigning, adding and deleting take registrations for an old element away at most, and those
of its items along with these. -/
theorem entryStable_deregisters (t₀ : Tree) :
    EntryStable (fun t => t.Ready n ∧ DeregistersOld n x t₀ t) fun _ => True where
  plan := fun _ _ _ _ => trivial
  unset :=
    fun {hook} _ => leads_keeping_of_given (leads_deregistersOld (deregisters_runUnset hook)) t₀
  store := fun _ value => leads_keeping_of_given
    (leads_deregistersOld (deregisters_update (Element.stub_store value))) t₀
  mark :=
    fun id changed => leads_keeping_of_given (leads_deregistersOld (deregisters_mark id changed)) t₀
  build := fun {t _ _ _ _} h _ _ => leads_keeping_of_given (deregisters_build _ _) t₀ t h
  remove :=
    fun id => leads_keeping_of_given (leads_deregistersOld (deregisters_removeSubtree id)) t₀
  members := fun {t id f} h _ => by
    rw [updateList_eq]
    exact leads_keeping_of_given
      (leads_deregistersOld (deregisters_update (Element.stub_relist f))) t₀ t h
  makeKeys := fun h => ⟨h.1.of_slots rfl rfl, fun hx => (h.2 hx).of_slots rfl rfl⟩
  tell := fun _ h => ⟨h.1.of_slots rfl rfl, fun hx => (h.2 hx).of_slots rfl rfl⟩

end Tree

end DataTree
