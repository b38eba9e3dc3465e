import DataTree.Proofs.Mirror.Gentle

/-!
# DataTree.Proofs.Mirror.Dangling

No dangling registrations: what is registered is there.

An element that is registered is there in any case, at the path that it is registered at.
An item that is registered is held by its owner as long as all operations were gentle to
that (`no_dangling_registrations`).  In trees of schemas whose choices are apart all
editing is (`reaches_gentle_of_grows`).
-/

namespace DataTree

open Edit

namespace Tree

variable {t t' : Tree} {id x : ElementId} {e : Element} {n : Nat} {op : Operation}

/-! ## What an operation does to registrations -/

theorem Ready.of_size (h : t.Ready n) : t.Ready t.slots.size := ⟨h.accounts.of_size, h.fitted⟩

theorem ready_empty : Ready {} 0 := ⟨accounts_empty, fun he => by simp [element?] at he⟩

/-- An operation leaves an old element registered at its path at most, and if it does not change
the items of that, takes registrations away at most. -/
theorem deregistersBut_after (h : t.Ready t.slots.size) (op : Operation) (x : ElementId) :
    (op.after t).Ready t.slots.size ∧
    (x.index < t.slots.size → (t.Placed x → (op.after t).Placed x) ∧
      (¬ op.Edits x → t.Deregisters x (op.after t))) := by
  have hentry := entryStable_deregisters (n := t.slots.size) (x := x) t
  have hstart : t.Ready t.slots.size ∧ DeregistersOld t.slots.size x t t :=
    ⟨h, refl_of (DeregistersOld _ x) t⟩
  have hlose : ∀ {t'}, t'.Ready t.slots.size ∧ DeregistersOld t.slots.size x t t' →
      t'.Ready t.slots.size ∧
      (x.index < t.slots.size → (t.Placed x → t'.Placed x) ∧ (¬ op.Edits x → t.Deregisters x t')) :=
    fun h => ⟨h.1, fun hx => ⟨(h.2 hx).placed, fun _ => h.2 hx⟩⟩
  have hpasses : ∀ (id) {t'}, (¬ op.Edits x → x ≠ id) → t'.Ready t.slots.size ∧
      t.DeregistersBut id x t' → t'.Ready t.slots.size ∧
        (x.index < t.slots.size → (t.Placed x → t'.Placed x) ∧
          (¬ op.Edits x → t.Deregisters x t')) :=
    fun _ _ hne h => ⟨h.1, fun _ => ⟨h.2.placed, fun hno => h.2.deregisters (hne hno)⟩⟩
  cases op with
  | wrap content spec fresh => exact hlose (deregisters_wrap fresh.proper t h)
  | instantiate schema spec =>
    exact hlose (leads_instantiate (I :=
      fun t' => t'.Ready t.slots.size ∧ DeregistersOld t.slots.size x t t')
      hentry.tell (leads_keeping_of_given (deregisters_build schema spec) t) t hstart)
  | set id active => exact hlose (hentry.set id active t hstart)
  | setLeaf id raw => exact hlose (hentry.setLeaf id raw t hstart)
  | editItem id edit proper =>
    refine hpasses id (fun hno => Ne.symm hno) ?_
    exact of_plan (I := fun t' => t'.Ready t.slots.size ∧ t.DeregistersBut id x t')
      ⟨h, refl_of (DeregistersBut id x) t⟩ fun hid => deregistersBut_editItem hid proper t h
  | extend id raws proper =>
    refine hpasses id (fun hno => Ne.symm hno) ?_
    exact of_plan (I := fun t' => t'.Ready t.slots.size ∧ t.DeregistersBut id x t')
      ⟨h, refl_of (DeregistersBut id x) t⟩ fun hid => deregistersBut_extend hid proper t h
  | unset id => exact hlose (leads_deregistersOld (deregisters_runUnset (.contents id)) t h)
  | removeSubtree id => exact hlose (leads_deregistersOld (deregisters_removeSubtree id) t h)
  | add id key => exact hlose (hentry.add id key t hstart)
  | delete id key => exact hlose (hentry.delete id key t hstart)

/-- For a new element only itself is registered. -/
theorem Accounts.placed (h : t.Accounts n) (hx : n ≤ x.index) : t.Placed x ∧ ¬ t.Enrolled x := by
  constructor
  · intro path
    rw [Registry.count_eq_countP_ownedAt]
    obtain hnil | ⟨hone, e, he, hpath, hreg⟩ := @Accounts.late _ _ h path _ hx
    · rw [show (Target.element x).owner = x from rfl, hnil]
      exact Nat.zero_le _
    · have hid := h.id_eq he
      rw [show (Target.element x).owner = x from rfl, hone, standing, he]
      simp [Element.standing, hreg, Registration.hits, Target.same, hpath, hid]
  · rintro ⟨path, v, hv⟩
    have hmem := Registry.mem_ownedAt.2 ⟨hv, rfl⟩
    obtain hnil | ⟨hone, -⟩ := @Accounts.late _ _ h path _ hx
    · rw [show (Target.member x v).owner = x from rfl, hnil] at hmem
      cases hmem
    · rw [show (Target.member x v).owner = x from rfl, hone] at hmem
      cases List.mem_singleton.1 hmem

/-- Whatever is done, elements are registered at their paths at most. -/
theorem placed_after (h : t.Ready t.slots.size) (hp : ∀ x, t.Placed x) (op : Operation) :
    (op.after t).Ready (op.after t).slots.size ∧ ∀ x, (op.after t).Placed x := by
  refine ⟨(deregistersBut_after h op ⟨0⟩).1.of_size, fun x => ?_⟩
  obtain ⟨hready, hold⟩ := deregistersBut_after h op x
  by_cases hx : x.index < t.slots.size
  · exact (hold hx).1 (hp x)
  · exact (hready.accounts.placed (Nat.not_lt.1 hx)).1

theorem edits_of_aims {content : Content} (h : op.Aims t x content) : op.Edits x := by
  cases op with
  | editItem | extend => exact h.1
  | _ => exact h.elim

/-- What only takes registrations away takes those of items along with these; only a supplied base
or a box has to be left alone for that. -/
theorem Gentle.backed_of_deregisters (hg : t.Gentle x op) (hedits : ¬ op.Edits x)
    (hb : t.Backed x []) (h : t.Ready n) (h' : (op.after t).Ready n)
    (hw : t.Deregisters x (op.after t)) : (op.after t).Backed x [] := by
  by_cases hcommon : t.Common x
  · exact (hw.backed hcommon).2 hb
  · obtain ⟨e, he, hc⟩ : ∃ e, t.element? x = some e ∧ e.content.isCustom = true := by
      by_contra hno
      exact hcommon fun e he => by
        rw [← Bool.not_eq_true]
        exact fun hc => hno ⟨e, he, hc⟩
    by_cases henrolled : t.Enrolled x
    · obtain ⟨c, hcustom⟩ := Content.isCustom_iff.1 hc
      have hheld : t.held x = some e.content := by rw [held, he, Option.map_some]
      obtain hsame | ⟨content, haims, -⟩ := hg.spares henrolled c (by rw [hheld, hcustom])
      · rw [hheld] at hsame
        obtain ⟨e', he', hsame⟩ := held_eq_some_iff.1 hsame
        obtain ⟨e₁, he₁, hpath, hreg⟩ := hw.element he'
        obtain rfl := Option.some.inj (he.symm.trans he₁)
        have hback : e'.backing = e.backing :=
          Element.backing_congr ((h'.accounts.id_eq he').trans
            (h.accounts.id_eq he).symm) hpath hreg
        have hgains : e.content.items.Subperm e'.content.items := hsame ▸ .refl _
        exact hb.of_gains he he' hback hw.owned hgains
      · exact absurd (edits_of_aims haims) hedits
    · exact backed_of_not_enrolled fun hlate => henrolled (hlate.of_owned hw.owned)

/-- An element stays backed under an operation that is gentle to it. -/
theorem Gentle.backed_after (hg : t.Gentle x op) (h : t.Ready t.slots.size) (hb : t.Backed x []) :
    (op.after t).Ready (op.after t).slots.size ∧ (op.after t).Backed x [] := by
  obtain ⟨hready, hold⟩ := deregistersBut_after h op x
  refine ⟨hready.of_size, ?_⟩
  by_cases hx : x.index < t.slots.size
  · by_cases hedits : op.Edits x
    · cases op with
      | editItem id edit proper =>
        obtain rfl : id = x := hedits
        cases hadds : edit.adds with
        | true => exact hg.backed_of_adds hadds hb h
        | false => exact hg.backed_of_takes hadds hb h
      | extend id raws proper =>
        obtain rfl : id = x := hedits
        exact hg.backed_of_extends hb h
      | _ => exact hedits.elim
    · exact hg.backed_of_deregisters hedits hb h hready ((hold hx).2 hedits)
  · exact backed_of_not_enrolled (hready.accounts.placed (Nat.not_lt.1 hx)).2

theorem placed_of_reaches (h : Reaches Unrestricted {} t) :
    t.Ready t.slots.size ∧ ∀ x, t.Placed x := by
  refine h.keeps (I := fun t => t.Ready t.slots.size ∧ ∀ x, t.Placed x)
    (fun t op hI _ => placed_after hI.1 hI.2 op) ⟨ready_empty, fun x => ?_⟩
  exact (accounts_empty.placed (Nat.zero_le _)).1

theorem backed_of_reaches (h : Reaches (Gentle x) {} t) : t.Backed x [] := by
  refine (h.keeps (I := fun t => t.Ready t.slots.size ∧ t.Backed x [])
    (fun t op hI hop => hop.backed_after hI.1 hI.2) ⟨ready_empty, ?_⟩).2
  exact backed_of_not_enrolled (accounts_empty.placed (Nat.zero_le _)).2

/-! ## What is behind a registration -/

/-- An element that is registered is there. -/
theorem Placed.exists_element (hp : t.Placed x) {path : String}
    (hx : .element x ∈ t.registry.targetsAt path) : ∃ e, t.element? x = some e ∧ e.path = path := by
  have hpos : 0 < t.registry.count path (.element x) :=
    List.countP_pos_iff.2 ⟨_, hx, by simp [Target.same]⟩
  have hle := hp path
  cases he : t.element? x with
  | none =>
    rw [standing, he, Option.map_none, Option.getD_none, List.countP_nil] at hle
    omega
  | some e =>
    rw [standing, he, Option.map_some, Option.getD_some, Element.standing] at hle
    split at hle
    · rw [List.countP_singleton] at hle
      refine ⟨e, rfl, ?_⟩
      by_contra hne
      rw [if_neg (by simp [Registration.hits, hne])] at hle
      omega
    · rw [List.countP_nil] at hle
      omega

/-- An item that is registered is held. -/
theorem Backed.exists_item (hb : t.Backed x []) {path : String} {v : Value}
    (hv : .member x v ∈ t.registry.targetsAt path) :
    ∃ e, t.element? x = some e ∧
      ∃ w ∈ e.content.items, w.same v = true ∧ e.memberPath w = path := by
  have hproper := hb.proper hv
  have hpos : 0 < t.registry.count path (.member x v) :=
    List.countP_pos_iff.2 ⟨_, hv, Target.same_refl (show (Target.member x v).Proper from hproper)⟩
  cases he : t.element? x with
  | none =>
    have hle := hb.bounded path hproper
    rw [backing, he, List.append_nil, List.countP_nil] at hle
    omega
  | some e =>
    refine ⟨e, rfl, ?_⟩
    have hle := hb.bounded path hproper
    rw [backing_of_element? he, List.append_nil, Element.backing] at hle
    split at hle
    · obtain ⟨r, hr, hhit⟩ := List.countP_pos_iff.1 (Nat.lt_of_lt_of_le hpos hle)
      obtain ⟨w, hw, rfl⟩ := List.mem_map.1 hr
      simp only [Registration.hits, Element.itemRegistration, Target.same, Bool.and_eq_true,
        beq_iff_eq] at hhit
      exact ⟨w, hw, hhit.2.2, hhit.1⟩
    · rw [List.countP_nil] at hle
      omega

/-! ## Trees of a schema -/

/-- Where all choices are apart, carrying out the plan of an element leaves it the content that it
was just given. -/
theorem Follows.held_commit {schema : Blueprint} {node : ElementId → Schema} {p : Plan}
    {content : Content} (h : t.Follows schema node) (hs : Sound t ∅) (ha : schema.root.Apart)
    (hp : t.plan x none = .ok p) (he : t.element? x = some e)
    (hsame : e.content.SameFrame content) :
    (commit p).Ensures (t.withContent x content) (fun _ t₂ => t₂.held x = some content)
      fun _ _ => True := by
  obtain ⟨-, hs₁, hd₁, hp₁, hfree⟩ := h.of_content hs ha hp he hsame
  have hran := ran_runUnsets hs₁ hd₁ ((frameStable_sound ∅).plan hs₁ hp₁)
  refine (hran.mono (fun _ _ hr => hr) fun _ _ _ => trivial).bind fun _ t₂ hran => ?_
  refine ((sameData_markChanged p.marks).ensures t₂).mono (fun _ t₃ hdata => ?_)
    fun _ _ _ => trivial
  rw [hdata x, held, hran.stays hfree, element?_modifyElement_self he]
  rfl

/-- In a tree of a schema whose choices are apart every operation is gentle, unless it takes an item
away and cannot be completed. -/
theorem gentle_of_evolves {schema : Blueprint} {spec : ElementSpec} (ha : schema.root.Apart)
    (hroot : spec.parent = none) (h : Evolves schema spec t)
    (hfresh : ∀ edit proper, op = .editItem x edit proper → edit.adds = false → ¬ t.Stale x) :
    t.Gentle x op := by
  obtain ⟨hs, node, hf⟩ := schematic_of_evolves hroot h
  have hplain : ∀ {c}, t.held x = some c → c.isCustom = false := fun {c} hc => by
    obtain ⟨e, he, rfl⟩ := held_eq_some_iff.1 hc
    exact Content.isCustom_of_isDeclared (hf.declared he)
  constructor
  case holds => exact fun _ c hc => Content.tallies_of_not_custom (hplain hc)
  case spares => exact fun _ c hc => absurd (hplain hc) (by simp [Content.isCustom])
  case adding =>
    rintro edit proper rfl -
    refine ensures_editItem (fun _ => trivial) fun {p e item content} hp he hr => ?_
    refine (hf.held_commit hs ha hp he (Content.sameFrame_of_edit hr)).mono
      (fun _ t₂ h₂ => ⟨fun e₂ he₂ => ⟨content, ⟨rfl, e.content, item, ?_, hr⟩, ?_⟩,
        fun _ => trivial⟩)
      fun _ _ _ => trivial
    · rw [held, he, Option.map_some]
    · rw [← h₂]
      refine held_congr (element?_congr ?_ x)
      split
      · exact slots_register t₂ e₂ _ _
      · exact slots_unregister t₂ e₂ _ _
  case extending =>
    rintro raws proper rfl
    refine ensures_extend (fun _ => trivial) fun {p e items content} hp he hr => ?_
    have haims : (Operation.extend x raws proper).Aims t x content :=
      ⟨rfl, e.content, items, by rw [held, he, Option.map_some], hr⟩
    refine (hf.held_commit hs ha hp he (Content.sameFrame_of_extend hr)).mono
      (fun _ t₂ h₂ => ⟨fun e₂ he₂ => ⟨content, haims, ?_⟩, fun hnone => ?_⟩) fun _ _ _ => trivial
    · rw [← h₂]
      exact held_congr (element?_congr (slots_registerMembers t₂ e₂ items) x)
    · rw [held, hnone] at h₂
      cases h₂
  case taking =>
    rintro edit proper rfl htakes
    refine (traceless_editItem_iff x edit).2 fun p hp e he r hr => ?_
    obtain ⟨l, l', hl, hedit, hl'⟩ := hf.declared.exists_leafList_of_edit he hr
    refine (hf.completes_iff hs ha hp he (Content.sameFrame_of_edit hr) ?_ _).2
      (hfresh edit proper rfl htakes)
    rw [hl, hl']
    exact fun heq => LeafList.ne_of_edit hedit (Content.leafList.inj heq)

/-! ## Sessions -/

/-- What a target stands for is there: an element at the path, or an item of an element at that of
the item. -/
def Warrants (t : Tree) (path : String) : Target → Prop
  | .element x => ∃ e, t.element? x = some e ∧ e.path = path
  | .member x v => ∃ e, t.element? x = some e ∧
      ∃ w ∈ e.content.items, w.same v = true ∧ e.memberPath w = path

/-- Editing a tree of a schema whose choices are apart is gentle to all elements. -/
theorem reaches_gentle_of_grows {schema : Blueprint} {spec : ElementSpec} (ha : schema.root.Apart)
    (hroot : spec.parent = none) (x : ElementId) (h : Grows schema spec t) :
    Reaches (Gentle x) {} t := by
  have hstart : ({} : Tree).Gentle x (.instantiate schema spec) := by
    constructor
    case holds => exact fun hedits => hedits.elim
    case spares =>
      rintro ⟨path, v, hv⟩
      cases hv
    all_goals
      intro _ _ heq
      cases heq
  refine (h.keeps (I := fun t => Grows schema spec t ∧ Reaches (Gentle x) {} t)
    (fun t op hI hop => ?_) ⟨.refl, Reaches.andThen .refl _ hstart⟩).2
  exact ⟨hI.1.andThen op hop, hI.2.andThen op (gentle_of_evolves ha hroot hI.1.evolves
    fun _ _ _ _ => not_stale_of_grows hroot hI.1 x)⟩

/-- **No dangling registrations**: whatever is registered for an element that all operations were
gentle to is there, and where an element itself is registered it is in any case.  All editing of a
tree of a schema whose choices are apart is gentle to all its elements. -/
theorem no_dangling_registrations {path : String} {target : Target}
    (hm : target ∈ t.registry.targetsAt path) :
    (∀ x, target = .element x → Reaches Unrestricted {} t → t.Warrants path target) ∧
      (Reaches (Gentle target.owner) {} t → t.Warrants path target) ∧
      ∀ {schema : Blueprint} {spec}, schema.root.Apart → spec.parent = none → Grows schema spec t →
        t.Warrants path target := by
  have hgentle : Reaches (Gentle target.owner) {} t → t.Warrants path target := by
    intro h
    have hplaced := placed_of_reaches (h.mono fun _ => trivial)
    cases target with
    | element x => exact (hplaced.2 x).exists_element hm
    | member x v => exact (backed_of_reaches h).exists_item hm
  refine ⟨fun x hx h => ?_, hgentle, fun ha hroot h =>
    hgentle (reaches_gentle_of_grows ha hroot target.owner h)⟩
  subst hx
  exact ((placed_of_reaches h).2 x).exists_element hm

/-- Tags in a wrapping. -/
def boxedTags : Content := .custom (.boxed (.leafList { type := ⟨[.string]⟩ }))

theorem isFresh_boxedTags : boxedTags.IsFresh where
  proper := fun v hv => by cases hv
  links := rfl
  distinct := fun h => by cases h

theorem holdsAtLeast_boxed (l : LeafList) : (Content.custom (.boxed (.leafList l))).HoldsAtLeast :=
  Content.tallies_of_leafList rfl

/-- Boxed tags, one of which was taken away again. -/
def retagged : Tree :=
  let made :=
    (Operation.wrap boxedTags { name := "tags", registers := true } isFresh_boxedTags).after {}
  let one := (Operation.editItem ⟨0⟩ (.append (.text "a")) trivial).after made
  let two := (Operation.editItem ⟨0⟩ (.append (.text "b")) trivial).after one
  (Operation.editItem ⟨0⟩ (.remove (.text "a")) trivial).after two

theorem gentle_of_on {edit : ItemEdit} {item : Value} {l : LeafList} {content : Content}
    {proper : edit.Proper} (hc : t.held x = some (.custom (.boxed (.leafList l))))
    (hon : (editItem x edit).on t = (.ok item, t'))
    (haims : (Operation.editItem x edit proper).Aims t x content)
    (hheld : t'.held x = some content) : t.Gentle x (.editItem x edit proper) where
  holds := fun _ c hc' => by
    rw [← Option.some.inj (hc.symm.trans hc')]
    exact holdsAtLeast_boxed l
  spares := fun _ _ _ => .inr ⟨content, haims, by
    show ((editItem x edit).on t).2.held x = _
    rw [hon, hheld]⟩
  adding := fun edit' _ heq _ => by
    obtain ⟨-, rfl⟩ := Operation.editItem.inj heq
    exact (ensures_of_ok hon).2 ⟨content, haims, hheld⟩
  extending := fun _ _ heq => by cases heq
  taking := fun edit' _ heq _ => by
    obtain ⟨-, rfl⟩ := Operation.editItem.inj heq
    exact (ensures_of_ok hon).2 trivial

theorem reaches_retagged : Reaches (Gentle ⟨0⟩) {} retagged := by
  have hwrap : ({} : Tree).Gentle ⟨0⟩
      (.wrap boxedTags { name := "tags", registers := true } isFresh_boxedTags) := by
    constructor
    case holds => exact fun hedits => hedits.elim
    case spares =>
      rintro ⟨path, v, hv⟩
      cases hv
    all_goals
      intro _ _ heq
      cases heq
  have hstart : Reaches (Gentle ⟨0⟩) {} {} := .refl
  have hmade := hstart.andThen _ hwrap
  have hone := hmade.andThen (.editItem ⟨0⟩ (.append (.text "a")) trivial)
    (gentle_of_on rfl rfl ⟨rfl, _, _, rfl, rfl⟩ rfl)
  have htwo := hone.andThen (.editItem ⟨0⟩ (.append (.text "b")) trivial)
    (gentle_of_on rfl rfl ⟨rfl, _, _, rfl, rfl⟩ rfl)
  exact htwo.andThen (.editItem ⟨0⟩ (.remove (.text "a")) trivial)
    (gentle_of_on rfl rfl ⟨rfl, _, _, rfl, rfl⟩ rfl)

/-- The tag that is left is registered, and is there. -/
theorem warrants_retagged : retagged.registry.entries.length = 2 ∧
    retagged.Warrants "/b" (.member ⟨0⟩ (.text "b")) := by
  have hm : .member ⟨0⟩ (.text "b") ∈ retagged.registry.targetsAt "/b" := List.mem_singleton.2 rfl
  exact ⟨by decide +kernel, (no_dangling_registrations hm).2.1 reaches_retagged⟩

/-- What a caller does who registers everything and assigns to no leaf. -/
def Registering (_ : Tree) : Operation → Prop
  | .wrap _ spec _ | .instantiate _ spec => spec.registers = true
  | .set _ _ | .setLeaf _ _ => False
  | _ => True

/-- Boxed tags that were removed with a tag in them. -/
def discarded : Tree :=
  let made :=
    (Operation.wrap boxedTags { name := "tags", registers := true } isFresh_boxedTags).after {}
  let one := (Operation.editItem ⟨0⟩ (.append (.text "a")) trivial).after made
  (Operation.removeSubtree ⟨0⟩).after one

/-- A tag is registered still after the boxed tags were removed. -/
theorem not_warrants_discarded : ¬ ∀ t path target, Reaches Registering {} t →
    target ∈ t.registry.targetsAt path → t.Warrants path target := by
  intro hall
  have hstart : Reaches Registering {} {} := .refl
  have hmade := hstart.andThen
    (.wrap boxedTags { name := "tags", registers := true } isFresh_boxedTags) rfl
  have hone := hmade.andThen (.editItem ⟨0⟩ (.append (.text "a")) trivial) trivial
  have hdiscarded : Reaches Registering {} discarded := hone.andThen (.removeSubtree ⟨0⟩) trivial
  have hm : .member ⟨0⟩ (.text "a") ∈ discarded.registry.targetsAt "/a" := List.mem_singleton.2 rfl
  obtain ⟨e, he, -⟩ := hall discarded "/a" _ hdiscarded hm
  have hnone : discarded.element? ⟨0⟩ = none := rfl
  rw [hnone] at he
  cases he

end Tree

end DataTree
