import DataTree.Proofs.Atomic.Items
import DataTree.Proofs.Items
import DataTree.Proofs.Mirror.Backed

/-!
# DataTree.Proofs.Mirror.Gentle

Changing items without leaving registrations behind.

An operation is gentle to an element if what it takes from the element it takes from the
registry too (`Tree.Gentle`).  Leaf-lists are treated gently but for two slips: an
operation that fails after it took an item away, and one that adds an item and unsets
the leaf-list along with it.  What is in a box, or in a supplied base, is not when it is
unset or removed; and a base has to hold what is put into it (`Content.HoldsAtLeast`).

Whatever is gentle to an element keeps it backed (`Gentle.backed_of_adds`,
`Gentle.backed_of_extends`, `Gentle.backed_of_takes`).
-/

namespace DataTree

open Edit Outcome

namespace Tree

variable {t t' : Tree} {id x : ElementId} {e : Element} {n : Nat} {extra regs : List Registration}

/-! ## Bounds -/

/-- A bound holds on when registrations go. -/
theorem Bounded.mono (h : t.Bounded x regs)
    (hown : ∀ path, (t'.registry.ownedAt path x).Sublist (t.registry.ownedAt path x)) :
    t'.Bounded x regs :=
  fun path _ hv => Nat.le_trans (Registry.count_le_of_sublist hown) (h path hv)

/-- A bound may be relaxed. -/
theorem Bounded.of_subperm {regs' : List Registration} (h : t.Bounded x regs)
    (hp : regs.Subperm regs') : t.Bounded x regs' :=
  fun path _ hv => Nat.le_trans (h path hv) (hp.countP_le _)

/-- An item that is registered has to be counted. -/
theorem Bounded.registerMember (h : t.Bounded x regs) (e : Element) (v : Value) :
    (t.registerMember e v).Bounded x (e.backing [v] ++ regs) := by
  intro path w hw
  have hw := h path hw
  unfold Element.backing Tree.registerMember register
  by_cases hr : e.registers = true
  · rw [if_pos hr, if_pos hr, List.map_singleton, List.singleton_append, List.countP_cons]
    show (Registry.register _ _ _).count path _ ≤ _
    rw [Registry.count_register]
    show _ + _ ≤
        _ + if Registration.hits path _ (e.memberPath v, .member e.id v) = true then 1 else 0
    omega
  · rw [if_neg hr, if_neg hr]
    exact hw

/-- Registering items raises the bound by what they back. -/
theorem Bounded.registerMembers (h : t.Bounded x regs) (e : Element) (items : List Value) :
    (items.foldl (fun t item => t.registerMember e item) t).Bounded x
      (e.backing items ++ regs) := by
  induction items generalizing t regs with
  | nil => exact h.of_subperm (List.sublist_append_right _ _).subperm
  | cons v items ih =>
    have hcons : e.backing (v :: items) = e.backing [v] ++ e.backing items :=
      e.backing_append [v] items
    refine (ih (h.registerMember e v)).of_subperm ?_
    rw [hcons, ← List.append_assoc]
    exact (List.perm_append_comm.append_right regs).subperm

/-- An item that is no longer registered need not be counted. -/
theorem Bounded.unregisterMember (hs : t.registry.removal = .single) {v : Value} (hv : v.Proper)
    (h : t.Bounded x (e.backing [v] ++ regs)) : (t.unregisterMember e v).Bounded x regs := by
  intro path w hw
  have hle := h path hw
  unfold Element.backing at hle
  unfold Tree.unregisterMember unregister
  by_cases hr : e.registers = true
  · rw [if_pos hr, List.map_singleton, List.singleton_append, List.countP_cons] at hle
    rw [if_pos hr]
    have hone := t.registry.count_unregisterTarget_le path (e.memberPath v) hs
      (show (Target.member x w).Proper from hw) (show (Target.member e.id v).Proper from hv)
    have hitem : e.itemRegistration v = (e.memberPath v, .member e.id v) := rfl
    rw [hitem] at hle
    show (Registry.unregisterTarget _ _ _).count path _ ≤ _
    omega
  · rw [if_neg hr] at hle
    rw [if_neg hr]
    exact hle

/-! ## Elements whose items do not change -/

/-- A change of the items of `id` leaves `x` registered at its path at most, and if `x` is another
element, takes registrations away at most. -/
structure DeregistersBut (id x : ElementId) (t t' : Tree) : Prop where
  placed : t.Placed x → t'.Placed x
  deregisters : x ≠ id → t.Deregisters x t'

instance (id x : ElementId) : IsPreorder Tree (DeregistersBut id x) where
  refl t := ⟨fun h => h, fun _ => refl_of (Deregisters x) t⟩
  trans _ _ _ h h' :=
    ⟨fun hp => h'.placed (h.placed hp), fun hne =>
      trans_of (Deregisters x) (h.deregisters hne) (h'.deregisters hne)⟩

theorem Deregisters.deregistersBut (h : t.Deregisters x t') : t.DeregistersBut id x t' :=
  ⟨h.placed, fun _ => h⟩

/-- A tree stays ready with a proper content. -/
theorem ready_withContent (h : t.Ready n) (id : ElementId) {content : Content}
    (hc : content.Proper) :
    (t.withContent id content).Ready n :=
  ⟨h.accounts.modifyElement fun _ _ => ⟨rfl, rfl, rfl⟩, fitted_modifyElement h.fitted fun _ _ => hc⟩

/-- A new content registers nothing. -/
theorem deregistersBut_withContent (t : Tree) (id x : ElementId) (content : Content) :
    t.DeregistersBut id x (t.withContent id content) := by
  refine ⟨fun hp path => ?_, fun hne => deregisters_modifyElement fun hx => absurd hx hne⟩
  have hstanding : (t.withContent id content).standing x = t.standing x := by
    rw [standing, standing, withContent, element?_modifyElement]
    split
    · rw [Option.map_map]
      rfl
    · rfl
  rw [hstanding]
  exact hp path

/-- Registering an item keeps a tree ready. -/
theorem ready_registerMember (h : t.Ready n) (he : e.id.index < n) (v : Value) :
    (t.registerMember e v).Ready n :=
  ⟨h.accounts.registerMember he v, fun hx =>
    h.fitted (element?_congr (slots_register t e _ _) _ ▸ hx)⟩

/-- So does unregistering one. -/
theorem ready_unregisterMember (h : t.Ready n) (e : Element) (v : Value) :
    (t.unregisterMember e v).Ready n :=
  ⟨h.accounts.unregisterMember e v,
    fun hx => h.fitted (element?_congr (slots_unregister t e _ _) _ ▸ hx)⟩

/-- Registering an item of one element is no concern of another. -/
theorem deregistersBut_registerMember (t : Tree) (e : Element) (v : Value) (x : ElementId) :
    t.DeregistersBut e.id x (t.registerMember e v) := by
  have hslots : (t.registerMember e v).slots = t.slots := slots_register t e _ _
  refine ⟨fun hp path => ?_, fun hne => deregisters_of_slots hslots fun path => ?_⟩
  · rw [standing, element?_congr hslots]
    refine Nat.le_trans ?_ (hp path)
    unfold registerMember register
    split
    · show (Registry.register _ _ _).count path _ ≤ _
      rw [Registry.count_register, if_neg (by simp [Registration.hits, Target.same])]
      exact Nat.le_refl _
    · exact Nat.le_refl _
  · unfold registerMember register
    split
    · show (Registry.ownedAt (Registry.register _ _ _) path x).Sublist _
      rw [Registry.ownedAt_register, if_neg fun h => hne h.2.symm, List.append_nil]
    · exact .refl _

/-- Unregistering takes registrations away only. -/
theorem deregistersBut_unregisterMember (t : Tree) (e : Element) (v : Value) (x : ElementId) :
    t.DeregistersBut id x (t.unregisterMember e v) :=
  Deregisters.deregistersBut (deregisters_of_slots (slots_unregister t e _ _) fun path =>
    ownedAt_sublist_unregisterMember t e v path x)

/-- Registering several items of an element is no concern of another. -/
theorem deregistersBut_registerMembers (h : t.Ready n) (he : e.id.index < n) (items : List Value)
    (x : ElementId) :
    (items.foldl (fun t item => t.registerMember e item) t).Ready n ∧
      t.DeregistersBut e.id x (items.foldl (fun t item => t.registerMember e item) t) := by
  induction items generalizing t with
  | nil => exact ⟨h, refl_of (DeregistersBut e.id x) t⟩
  | cons item items ih =>
    obtain ⟨hready, hpasses⟩ := ih (ready_registerMember h he item)
    exact ⟨hready, trans_of (DeregistersBut e.id x)
      (deregistersBut_registerMember t e item x) hpasses⟩

/-- Editing the items of an element registers nothing for another. -/
theorem deregistersBut_editItem (hid : id.index < n) {op : ItemEdit} (hop : op.Proper) :
    Leads (Given (Ready · n) (DeregistersBut id x)) (editItem id op) := by
  intro t h
  refine rel_of_ensures (R := fun t t' => t'.Ready n ∧ t.DeregistersBut id x t')
    (ensures_editItem (fun _ => ⟨h, refl_of (DeregistersBut id x) t⟩)
      fun {p e item content} _ he hr => ?_)
  have hc := (Content.proper_of_edit hr hop (h.fitted he)).2
  have h₁ := ready_withContent h id hc
  refine (ensures_of_rel (R := fun t t' => t'.Ready n ∧ t.Deregisters x t')
    (deregisters_commit p _ h₁)).mono (fun _ t₂ h₂ => ?_) fun _ t₂ h₂ => ?_
  all_goals
    obtain ⟨hready, hlose⟩ := h₂
    have hpasses : t.DeregistersBut id x t₂ :=
      trans_of (DeregistersBut id x) (deregistersBut_withContent t id x content)
        (Deregisters.deregistersBut hlose)
  · refine ⟨fun e₂ he₂ => ?_, fun _ => ⟨hready, hpasses⟩⟩
    obtain rfl : e₂.id = id := hready.accounts.id_eq he₂
    split
    · exact ⟨ready_registerMember hready hid item, trans_of (DeregistersBut e₂.id x) hpasses
        (deregistersBut_registerMember t₂ e₂ item x)⟩
    · exact ⟨ready_unregisterMember hready e₂ item, trans_of (DeregistersBut e₂.id x) hpasses
        (deregistersBut_unregisterMember t₂ e₂ item x)⟩
  · exact ⟨hready, hpasses⟩

/-- Nor does adding to them in bulk. -/
theorem deregistersBut_extend (hid : id.index < n) {raws : List Value}
    (hraws : ∀ raw ∈ raws, raw.Proper) :
    Leads (Given (Ready · n) (DeregistersBut id x)) (extend id raws) := by
  intro t h
  refine rel_of_ensures (R := fun t t' => t'.Ready n ∧ t.DeregistersBut id x t')
    (ensures_extend (fun _ => ⟨h, refl_of (DeregistersBut id x) t⟩)
      fun {p e items content} _ he hr => ?_)
  have hc := (Content.proper_of_extend hr hraws (h.fitted he)).2
  have h₁ := ready_withContent h id hc
  refine (ensures_of_rel (R := fun t t' => t'.Ready n ∧ t.Deregisters x t')
    (deregisters_commit p _ h₁)).mono (fun _ t₂ h₂ => ?_) fun _ t₂ h₂ => ?_
  all_goals
    obtain ⟨hready, hlose⟩ := h₂
    have hpasses : t.DeregistersBut id x t₂ :=
      trans_of (DeregistersBut id x) (deregistersBut_withContent t id x content)
        (Deregisters.deregistersBut hlose)
  · refine ⟨fun e₂ he₂ => ?_, fun _ => ⟨⟨hready, hpasses⟩, hready, hpasses⟩⟩
    obtain rfl : e₂.id = id := hready.accounts.id_eq he₂
    obtain ⟨hready₃, hbut₃⟩ := deregistersBut_registerMembers hready hid items x
    exact ⟨hready₃, trans_of (DeregistersBut e₂.id x) hpasses hbut₃⟩
  · exact ⟨hready, hpasses⟩

/-! ## The element whose items change -/

/-- Some item of an element is registered. -/
def Enrolled (t : Tree) (x : ElementId) : Prop := ∃ path v, .member x v ∈ t.registry.targetsAt path

/-- Whose items are registered had items registered, if none was registered anew. -/
theorem Enrolled.of_owned (h : t'.Enrolled x)
    (hown : ∀ path, (t'.registry.ownedAt path x).Sublist (t.registry.ownedAt path x)) :
    t.Enrolled x := by
  obtain ⟨path, v, hv⟩ := h
  exact ⟨path, v, (Registry.mem_ownedAt.1
    ((hown path).subset (Registry.mem_ownedAt.2 ⟨hv, rfl⟩))).1⟩

/-- Where nothing is registered nothing can lack its item. -/
theorem backed_of_not_enrolled (h : ¬ t.Enrolled x) : t.Backed x extra := by
  have hno : ∀ path v, .member x v ∉ t.registry.targetsAt path := fun path v hv => h ⟨path, v, hv⟩
  refine ⟨fun hv => absurd hv (hno _ _), fun path v _ => ?_⟩
  have hzero : t.registry.count path (.member x v) = 0 := by
    refine List.countP_eq_zero.2 fun y hy hsame => ?_
    cases y with
    | element id => simp [Target.same] at hsame
    | member owner w =>
      simp only [Target.same, Bool.and_eq_true, beq_iff_eq] at hsame
      exact hno path w (hsame.1 ▸ hy)
  rw [hzero]
  exact Nat.zero_le _

/-- Registrations that got fewer are backed by the items, but for those that are held no longer. -/
theorem Backed.of_subperm (hb : t.Backed x []) {e e' : Element} (he : t.element? x = some e)
    (he' : t'.element? x = some e') (hback : e'.backing = e.backing)
    (hown : ∀ path, (t'.registry.ownedAt path x).Sublist (t.registry.ownedAt path x))
    {gone : List Value} (hitems : e.content.items.Subperm (gone ++ e'.content.items)) :
    t'.Backed x (e'.backing gone) := by
  refine ⟨proper_of_sublist hb hown, ?_⟩
  have hbound := hb.bounded.mono hown
  rw [backing_of_element? he, List.append_nil] at hbound
  rw [backing_of_element? he', hback, ← e.backing_append]
  exact hbound.of_subperm (e.subperm_backing (hitems.trans List.perm_append_comm.subperm))

/-- So they are altogether if the items got no fewer. -/
theorem Backed.of_gains (hb : t.Backed x []) {e e' : Element} (he : t.element? x = some e)
    (he' : t'.element? x = some e') (hback : e'.backing = e.backing)
    (hown : ∀ path, (t'.registry.ownedAt path x).Sublist (t.registry.ownedAt path x))
    (hgains : e.content.items.Subperm e'.content.items) : t'.Backed x [] := by
  have hnil : e'.backing [] = [] := by simp [Element.backing]
  have hbacked : t'.Backed x (e'.backing []) := hb.of_subperm he he' hback hown hgains
  rwa [hnil] at hbacked

/-- A registered item was so before, or is one of the new ones. -/
theorem mem_targetsAt_registerMembers {v : Value} {path : String} {items : List Value}
    (h : .member x v ∈ (items.foldl (fun t item => t.registerMember e item)
      t).registry.targetsAt path) : .member x v ∈ t.registry.targetsAt path ∨ v ∈ items := by
  induction items generalizing t with
  | nil => exact .inl h
  | cons item items ih =>
    obtain h | hv := ih h
    · simp only [registerMember, registry_register] at h
      split at h
      · refine (Registry.mem_targetsAt_register_iff.1 h).imp_right fun hitem => ?_
        obtain ⟨-, rfl⟩ := Target.member.inj hitem.2
        exact List.mem_cons_self
      · exact .inl h
    · exact .inr (List.mem_cons_of_mem item hv)

theorem slots_registerMembers (t : Tree) (e : Element) (items : List Value) :
    (items.foldl (fun t item => t.registerMember e item) t).slots = t.slots := by
  induction items generalizing t with
  | nil => rfl
  | cons item items ih => exact (ih _).trans (slots_register t e _ _)

/-- Items that were added and are held are registered with the others. -/
theorem Backed.registerMembers (hb : t.Backed x []) {e e' : Element} (he : t.element? x = some e)
    (he' : t'.element? x = some e') (hback : e'.backing = e.backing)
    (hown : ∀ path, (t'.registry.ownedAt path x).Sublist (t.registry.ownedAt path x))
    {items : List Value} (hgains : (items ++ e.content.items).Subperm e'.content.items)
    (hitems : ∀ v ∈ items, v.Proper) :
    (items.foldl (fun t item => t.registerMember e' item) t').Backed x [] := by
  refine ⟨fun hv => ?_, ?_⟩
  · obtain hv | hv := mem_targetsAt_registerMembers hv
    · exact proper_of_sublist hb hown hv
    · exact hitems _ hv
  · have hel := (element?_congr (slots_registerMembers t' e' items) x).trans he'
    have hbound := hb.bounded.mono hown
    rw [backing_of_element? he, List.append_nil] at hbound
    rw [backing_of_element? hel, List.append_nil]
    refine (hbound.registerMembers e' items).of_subperm ?_
    rw [hback, ← e.backing_append]
    exact e.subperm_backing hgains

/-- An item that was taken away is no longer registered. -/
theorem Backed.unregisterMember {v : Value} (hb : t.Backed x (e.backing [v]))
    (hs : t.registry.removal = .single) (hv : v.Proper) : (t.unregisterMember e v).Backed x [] := by
  refine ⟨proper_of_sublist hb fun path => ownedAt_sublist_unregisterMember t e v path x, ?_⟩
  have hel : (t.unregisterMember e v).element? x = t.element? x :=
    element?_congr (slots_unregister t e _ _) x
  rw [backing, hel, List.append_nil]
  exact Bounded.unregisterMember hs hv (hb.bounded.of_subperm List.perm_append_comm.subperm)

/-! ## Gentle operations -/

end Tree

/-- Whether an operation changes the items of an element. -/
def Operation.Edits (x : ElementId) : Operation → Prop
  | .editItem id _ _ | .extend id _ _ => id = x
  | _ => False

/-- What an operation is to make of the content of an element, if it changes the items of that. -/
def Operation.Aims (t : Tree) (x : ElementId) (content : Content) : Operation → Prop
  | .editItem id edit _ => id = x ∧ ∃ c item, t.held x = some c ∧ c.edit edit = .ok (item, content)
  | .extend id raws _ =>
    id = x ∧ ∃ c items, t.held x = some c ∧ c.extend raws = .ok (items, content)
  | _ => False

namespace Tree

variable {t t' : Tree} {id x : ElementId} {e : Element} {n : Nat} {extra regs : List Registration}

/-- An operation that takes nothing from an element behind the back of the registry. -/
structure Gentle (x : ElementId) (t : Tree) (op : Operation) : Prop where
  /-- What is put into the element stays there until it is taken out. -/
  holds : op.Edits x → ∀ c, t.held x = some c → c.HoldsAtLeast
  /-- A supplied base or a box that has registered items is neither unset nor removed. -/
  spares : t.Enrolled x → ∀ c, t.held x = some (.custom c) → (op.after t).held x = t.held x ∨
    ∃ content, op.Aims t x content ∧ (op.after t).held x = some content
  /-- An item that is added is there in the end. -/
  adding : ∀ edit proper, op = .editItem x edit proper → edit.adds = true →
    (editItem x edit).Ensures t
    (fun _ t' => ∃ content, op.Aims t x content ∧ t'.held x = some content) fun _ _ => True
  /-- So are several items. -/
  extending : ∀ raws proper, op = .extend x raws proper → (extend x raws).Ensures t
    (fun _ t' => ∃ content, op.Aims t x content ∧ t'.held x = some content) fun _ _ => True
  /-- An item is taken away for good or not at all. -/
  taking : ∀ edit proper, op = .editItem x edit proper → edit.adds = false →
    Traceless (editItem x edit) t

/-- A gentle edit is one of a content that gives back what it was given. -/
theorem Gentle.holdsAtLeast {op : Operation} (hg : t.Gentle x op) (hedits : op.Edits x)
    (he : t.element? x = some e) : e.content.HoldsAtLeast :=
  hg.holds hedits e.content (by rw [held, he, Option.map_some])

/-- A changed content is of the same kind as before. -/
theorem common_withContent {content : Content} (he : t.element? x = some e)
    (hframe : e.content.SameFrame content) (hc : e.content.isCustom = false) :
    (t.withContent x content).Common x := by
  intro e' he'
  rw [withContent, element?_modifyElement_self he] at he'
  rw [← Option.some.inj he', ← hc]
  exact Content.isCustom_of_bare hframe.1

/-- What has become of a tree since the content of `x` changed. -/
structure Since (t : Tree) (x : ElementId) (n : Nat) (content : Content) (t' : Tree) : Prop where
  ready : t'.Ready n
  deregisters : (t.withContent x content).Deregisters x t'

/-- Since the change registrations of the element have only gone. -/
theorem Since.owned {content : Content} (h : t.Since x n content t') (path : String) :
    (t'.registry.ownedAt path x).Sublist (t.registry.ownedAt path x) := h.deregisters.owned path

/-- Since the change the same items back the same registrations. -/
theorem Since.backing {content : Content} (h : t.Since x n content t') (ht : t.Ready n)
    {e e' : Element} (he : t.element? x = some e) (he' : t'.element? x = some e') :
    e'.backing = e.backing := by
  have he₁ : (t.withContent x content).element? x = some { e with content } :=
    element?_modifyElement_self he
  obtain ⟨e₁, he₁', hpath, hreg⟩ := h.deregisters.element he'
  obtain rfl := Option.some.inj (he₁.symm.trans he₁')
  exact Element.backing_congr
    ((h.ready.accounts.id_eq he').trans (ht.accounts.id_eq he).symm) hpath hreg

/-- Carrying out a plan after the content of an element changed. -/
theorem since_commit (ht : t.Ready n) {content : Content} (hc : content.Proper) (p : Plan) :
    (commit p).Ensures (t.withContent x content) (fun _ => t.Since x n content)
      fun _ => t.Since x n content :=
  (ensures_of_rel (R := fun t t' => t'.Ready n ∧ t.Deregisters x t')
    (deregisters_commit p _ (ready_withContent ht x hc))).mono (fun _ _ h =>
      ⟨h.1, h.2⟩) fun _ _ h => ⟨h.1, h.2⟩

/-- Items that are held in the end, and are registered then, are backed. -/
theorem Since.backed_registerMembers {content : Content} {items : List Value}
    (h : t.Since x n content t')
    (hb : t.Backed x []) (ht : t.Ready n) {e e' : Element} (he : t.element? x = some e)
    (he' : t'.element? x = some e') (hgains : (items ++ e.content.items).Subperm content.items)
    (hitems : ∀ v ∈ items, v.Proper)
    (hheld : (items.foldl (fun t item => t.registerMember e' item) t').held x = some content) :
    (items.foldl (fun t item => t.registerMember e' item) t').Backed x [] := by
  have hcontent : e'.content = content := by
    rw [held, element?_congr (slots_registerMembers t' e' items), he'] at hheld
    exact Option.some.inj hheld
  exact hb.registerMembers he he' (h.backing ht he he') h.owned (hcontent ▸ hgains) hitems

/-- What got less since the content of an element changed is backed, unless a supplied base or a box
was unset or removed. -/
theorem Since.backed {content : Content} (h : t.Since x n content t') (hb : t.Backed x [])
    (ht : t.Ready n) {e : Element} (he : t.element? x = some e)
    (hframe : e.content.SameFrame content) (hgains : e.content.items.Subperm content.items)
    (hspares : t.Enrolled x → ∀ c, t.held x = some (.custom c) →
      t'.held x = t.held x ∨ t'.held x = some content) : t'.Backed x [] := by
  have he₁ : (t.withContent x content).element? x = some { e with content } :=
    element?_modifyElement_self he
  by_cases hc : e.content.isCustom = true
  · by_cases henrolled : t.Enrolled x
    · obtain ⟨c, hcustom⟩ := Content.isCustom_iff.1 hc
      have hheld : t.held x = some e.content := by rw [held, he, Option.map_some]
      obtain hsame | hsame := hspares henrolled c (by rw [hheld, hcustom])
      · rw [hheld] at hsame
        obtain ⟨e', he', hsame⟩ := held_eq_some_iff.1 hsame
        have hgains' : e.content.items.Subperm e'.content.items := hsame ▸ .refl _
        exact hb.of_gains he he' (h.backing ht he he') h.owned hgains'
      · obtain ⟨e', he', hsame⟩ := held_eq_some_iff.1 hsame
        exact hb.of_gains he he' (h.backing ht he he') h.owned (hsame ▸ hgains)
    · exact backed_of_not_enrolled fun hlate => henrolled (hlate.of_owned h.owned)
  · refine (h.deregisters.backed (common_withContent he hframe (Bool.not_eq_true _ ▸ hc))).2
      (hb.of_gains he he₁ ?_ (fun _ => .refl _) hgains)
    exact Element.backing_congr rfl rfl rfl

/-- An edit that succeeds makes of the content what it aims at. -/
theorem eq_of_aims_editItem {edit : ItemEdit} {content content' : Content} {item : Value}
    (he : t.element? x = some e) (hr : e.content.edit edit = .ok (item, content)) {proper}
    (h : (Operation.editItem x edit proper).Aims t x content') : content' = content := by
  obtain ⟨-, c, item', hc, hr'⟩ := h
  rw [held, he] at hc
  rw [← Option.some.inj hc, hr] at hr'
  exact (Prod.mk.inj (Except.ok.inj hr')).2.symm

/-- So does adding in bulk. -/
theorem eq_of_aims_extend {raws items : List Value} {content content' : Content}
    (he : t.element? x = some e) (hr : e.content.extend raws = .ok (items, content)) {proper}
    (h : (Operation.extend x raws proper).Aims t x content') : content' = content := by
  obtain ⟨-, c, items', hc, hr'⟩ := h
  rw [held, he] at hc
  rw [← Option.some.inj hc, hr] at hr'
  exact (Prod.mk.inj (Except.ok.inj hr')).2.symm

/-- What a gentle operation spares, if it aims at one content only. -/
theorem Gentle.held_or {op : Operation} {content : Content} (hg : t.Gentle x op)
    (haims : ∀ {content'}, op.Aims t x content' → content' = content) (h : t.Enrolled x)
    (c : Custom) (hc : t.held x = some (.custom c)) :
    (op.after t).held x = t.held x ∨ (op.after t).held x = some content := by
  refine (hg.spares h c hc).imp_right ?_
  rintro ⟨content', hcontent', hheld⟩
  rw [hheld, haims hcontent']

/-- Adding an item. -/
theorem Gentle.backed_of_adds {edit : ItemEdit} {proper : edit.Proper}
    (hg : t.Gentle x (.editItem x edit proper)) (hadds : edit.adds = true) (hb : t.Backed x [])
    (ht : t.Ready n) : ((Operation.editItem x edit proper).after t).Backed x [] := by
  have hgains : ∀ {e item content}, t.element? x = some e →
      e.content.edit edit = .ok (item, content) →
      ([item] ++ e.content.items).Subperm content.items := fun he hr => by
    have hitems := (hg.holdsAtLeast rfl he).of_edit hr proper
    rwa [if_pos hadds] at hitems
  have hsteps : (editItem x edit).Ensures t
      (fun item t' => ∃ e content t₂ e₂, t.element? x = some e ∧
        e.content.edit edit = .ok (item, content) ∧
        t.Since x n content t₂ ∧ t₂.element? x = some e₂ ∧ t' = t₂.registerMember e₂ item)
      fun _ t' => t' = t ∨ ∃ e item content, t.element? x = some e ∧
        e.content.edit edit = .ok (item, content) ∧ t.Since x n content t' := by
    refine ensures_editItem (fun _ => .inl rfl) fun {p e item content} _ he hr => ?_
    have hc := (Content.proper_of_edit hr proper (ht.fitted he)).2
    refine (since_commit ht hc p).mono
      (fun _ t₂ h₂ => ⟨fun e₂ he₂ => ?_, fun _ => ?_⟩) fun _ t₂ h₂ => ?_
    · rw [if_pos hadds]
      exact ⟨e, content, t₂, e₂, he, hr, h₂, he₂, rfl⟩
    all_goals exact .inr ⟨e, item, content, he, hr, h₂⟩
  cases hon : (editItem x edit).on t with
  | mk r t' =>
    have hafter : (Operation.editItem x edit proper).after t = t' := congrArg Prod.snd hon
    rw [hafter]
    cases r with
    | ok item =>
      obtain ⟨e, content, t₂, e₂, he, hr, hsince, he₂, rfl⟩ := hsteps.of_ok hon
      obtain ⟨content', haims, hheld⟩ := (hg.adding edit proper rfl hadds).of_ok hon
      obtain rfl := eq_of_aims_editItem he hr haims
      refine hsince.backed_registerMembers hb ht he he₂ (hgains he hr) (fun v hv => ?_) hheld
      rw [List.mem_singleton.1 hv]
      exact (Content.proper_of_edit hr proper (ht.fitted he)).1
    | error err =>
      obtain rfl | ⟨e, item, content, he, hr, hsince⟩ := hsteps.of_error hon
      · exact hb
      · refine hsince.backed hb ht he (Content.sameFrame_of_edit hr)
          ((List.sublist_append_right _ _).subperm.trans (hgains he hr)) fun henrolled c hc => ?_
        rw [← hafter]
        exact hg.held_or (eq_of_aims_editItem he hr) henrolled c hc

/-- Adding several items. -/
theorem Gentle.backed_of_extends {raws : List Value} {proper : ∀ raw ∈ raws, raw.Proper}
    (hg : t.Gentle x (.extend x raws proper)) (hb : t.Backed x []) (ht : t.Ready n) :
    ((Operation.extend x raws proper).after t).Backed x [] := by
  have hgains : ∀ {e items content}, t.element? x = some e →
      e.content.extend raws = .ok (items, content) →
      (items ++ e.content.items).Subperm content.items :=
    fun he hr => (hg.holdsAtLeast rfl he).of_extend hr proper
  have hsteps : (extend x raws).Ensures t
      (fun items t' => ∃ e content t₂, t.element? x = some e ∧
        e.content.extend raws = .ok (items, content) ∧
        t.Since x n content t₂ ∧ ((∃ e₂, t₂.element? x = some e₂ ∧
          t' = items.foldl (fun t item => t.registerMember e₂ item) t₂) ∨ t'.element? x = none))
      fun _ t' => t' = t ∨ ∃ e items content, t.element? x = some e ∧
        e.content.extend raws = .ok (items, content) ∧ t.Since x n content t' := by
    refine ensures_extend (fun _ => .inl rfl) fun {p e items content} _ he hr => ?_
    have hc := (Content.proper_of_extend hr proper (ht.fitted he)).2
    refine (since_commit ht hc p).mono
      (fun _ t₂ h₂ => ⟨fun e₂ he₂ => ?_, fun hnone => ⟨?_, ?_⟩⟩) fun _ t₂ h₂ => ?_
    · exact ⟨e, content, t₂, he, hr, h₂, .inl ⟨e₂, he₂, rfl⟩⟩
    · exact ⟨e, content, t₂, he, hr, h₂, .inr hnone⟩
    all_goals exact .inr ⟨e, items, content, he, hr, h₂⟩
  cases hon : (extend x raws).on t with
  | mk r t' =>
    have hafter : (Operation.extend x raws proper).after t = t' := congrArg Prod.snd hon
    rw [hafter]
    cases r with
    | ok items =>
      obtain ⟨e, content, t₂, he, hr, hsince, hlast⟩ := hsteps.of_ok hon
      obtain ⟨content', haims, hheld⟩ := (hg.extending raws proper rfl).of_ok hon
      obtain rfl := eq_of_aims_extend he hr haims
      obtain ⟨e₂, he₂, rfl⟩ | hnone := hlast
      · exact hsince.backed_registerMembers hb ht he he₂ (hgains he hr)
          (Content.proper_of_extend hr proper (ht.fitted he)).1 hheld
      · rw [held, hnone] at hheld
        cases hheld
    | error err =>
      obtain rfl | ⟨e, items, content, he, hr, hsince⟩ := hsteps.of_error hon
      · exact hb
      · refine hsince.backed hb ht he (Content.sameFrame_of_extend hr)
          ((List.sublist_append_right _ _).subperm.trans (hgains he hr)) fun henrolled c hc => ?_
        rw [← hafter]
        exact hg.held_or (eq_of_aims_extend he hr) henrolled c hc

/-- Taking an item away. -/
theorem Gentle.backed_of_takes {edit : ItemEdit} {proper : edit.Proper}
    (hg : t.Gentle x (.editItem x edit proper)) (htakes : edit.adds = false) (hb : t.Backed x [])
    (ht : t.Ready n) : ((Operation.editItem x edit proper).after t).Backed x [] := by
  have hsteps : (editItem x edit).Ensures t
      (fun item t' => ∃ e content t₂ e₂, t.element? x = some e ∧
        e.content.edit edit = .ok (item, content) ∧
        t.Since x n content t₂ ∧ t₂.element? x = some e₂ ∧ t' = t₂.unregisterMember e₂ item)
      fun _ _ => True := by
    refine ensures_editItem (fun _ => trivial) fun {p e item content} _ he hr => ?_
    have hc := (Content.proper_of_edit hr proper (ht.fitted he)).2
    refine (since_commit ht hc p).mono (fun _ t₂ h₂ => ⟨fun e₂ he₂ => ?_, fun _ => trivial⟩)
      fun _ _ _ => trivial
    rw [if_neg (by simp [htakes])]
    exact ⟨e, content, t₂, e₂, he, hr, h₂, he₂, rfl⟩
  cases hon : (editItem x edit).on t with
  | mk r t' =>
    have hafter : (Operation.editItem x edit proper).after t = t' := congrArg Prod.snd hon
    rw [hafter]
    cases r with
    | error err =>
      obtain rfl := (hg.taking edit proper rfl htakes).of_error hon
      exact hb
    | ok item =>
      obtain ⟨e, content, t₂, e₂, he, hr, hsince, he₂, rfl⟩ := hsteps.of_ok hon
      have hgone : e.content.items.Subperm ([item] ++ content.items) := by
        have hitems := (hg.holdsAtLeast rfl he).of_edit hr proper
        rwa [if_neg (by simp [htakes])] at hitems
      have hitem := (Content.proper_of_edit hr proper (ht.fitted he)).1
      have hsingle := hsince.ready.accounts.tidy.single
      have hback := hsince.backing ht he he₂
      by_cases hc : e.content.isCustom = true
      · by_cases henrolled : t.Enrolled x
        · obtain ⟨c, hcustom⟩ := Content.isCustom_iff.1 hc
          have hheld : t.held x = some e.content := by rw [held, he, Option.map_some]
          have hel : (t₂.unregisterMember e₂ item).element? x = some e₂ :=
            (element?_congr (slots_unregister t₂ e₂ _ _) x).trans he₂
          have hor := hg.held_or (eq_of_aims_editItem he hr) henrolled c (by rw [hheld, hcustom])
          rw [hafter, hheld, held, hel] at hor
          obtain hsame | hsame := hor
          · have hown : ∀ path, ((t₂.unregisterMember e₂ item).registry.ownedAt path x).Sublist
                (t.registry.ownedAt path x) := fun path =>
              (ownedAt_sublist_unregisterMember t₂ e₂ item path x).trans (hsince.owned path)
            have hgains : e.content.items.Subperm e₂.content.items :=
              Option.some.inj hsame ▸ .refl _
            exact hb.of_gains he hel hback hown hgains
          · rw [← Option.some.inj hsame] at hgone
            exact (hb.of_subperm he he₂ hback hsince.owned hgone).unregisterMember hsingle hitem
        · refine backed_of_not_enrolled fun hlate => henrolled (hlate.of_owned fun path => ?_)
          exact (ownedAt_sublist_unregisterMember t₂ e₂ item path x).trans (hsince.owned path)
      · have he₁ : (t.withContent x content).element? x = some { e with content } :=
          element?_modifyElement_self he
        have hcommon :=
          common_withContent he (Content.sameFrame_of_edit hr) (Bool.not_eq_true _ ▸ hc)
        have hextra : (t.withContent x content).Backed x (e₂.backing [item]) := by
          rw [hback]
          exact hb.of_subperm he he₁ (Element.backing_congr rfl rfl rfl) (fun _ => .refl _) hgone
        exact ((hsince.deregisters.backed hcommon).2 hextra).unregisterMember hsingle hitem

end Tree

end DataTree
