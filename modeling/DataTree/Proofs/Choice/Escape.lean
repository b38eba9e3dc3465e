import DataTree.Proofs.Choice.Operations

/-!
# DataTree.Proofs.Choice.Escape

When filling an element breaks exclusivity.

Unsetting takes the data under an element and no other (`laden_runUnsets`).  So if a
single element is filled, the tree stays exclusive exactly if its plan unsets all data
that its rivals hold (`exclusive_iff_not_escapes`), whether choices are shadowed or not.
-/

namespace DataTree.Tree

open Edit Outcome

variable {t t' : Tree} {pending : Set ElementId} {id b c x y : ElementId} {e : Element}
  {p : Plan}

/-! ## What unsetting takes -/

theorem Unsets.laden_iff (h : Unsets id t t') : t'.Laden y ↔ t.Laden y ∧ ¬ t.Under id y := by
  by_cases hu : t.Under id y
  · have hno : ¬ t'.Laden y := by
      intro hy
      by_cases hw : t.Within id y
      · obtain ⟨e', he', hdata⟩ := hy
        rw [h.within hw] at he'
        obtain ⟨e, -, rfl⟩ := Option.map_eq_some_iff.1 he'
        simp [Element.emptied] at hdata
      · obtain ⟨e', he', -⟩ := hy
        rw [h.gone hu hw] at he'
        cases he'
    simp [hno, hu]
  · simp [laden_congr (h.stays hu), hu]

/-- Once all hooks have run, the data under what they unset is gone, and no other. -/
theorem laden_runUnsets {hooks : List Unset} (h : Sound t pending) (hd : t.Declared)
    (hh : ∀ hook ∈ hooks, ∃ c, hook = .contents c) :
    (runUnsets hooks).Ensures t
      (fun _ t' => ∀ y, t'.Laden y ↔ t.Laden y ∧ ∀ c, .contents c ∈ hooks → ¬ t.Under c y)
      fun _ _ => True := by
  induction hooks generalizing t with
  | nil => exact fun y => by simp
  | cons hook hooks ih =>
    obtain ⟨c, rfl⟩ := hh _ List.mem_cons_self
    show (unset c >>= fun _ => runUnsets hooks).Ensures t _ _
    cases hc : t.element? c with
    | none =>
      rw [ensures_bind, ensures_of_error (on_unset_of_none hc)]
      trivial
    | some ce =>
      have hstep := ((h.unset hd hc).and ((sound_unset pending c).ensures t)).and
        ((shrinks_unset c).ensures t)
      refine (hstep.mono (fun _ _ hp => hp) fun _ _ _ => trivial).bind fun _ t₁ h₁ => ?_
      obtain ⟨⟨hun, h₁⟩, hs⟩ := h₁
      refine (ih (h₁ h) (hd.retains hun.fades.retains) fun hook hm =>
        hh hook (List.mem_cons_of_mem _ hm)).mono (fun _ t₂ h₂ y => ?_) fun _ _ hf => hf
      -- What is still there is under the same elements as before.
      have hunder : t₁.Laden y → ∀ d, t₁.Under d y ↔ t.Under d y := by
        intro hy d
        obtain ⟨e, he, -⟩ := hy
        exact ⟨hs.under, fun hu => h.under_of_shrinks (h₁ h) hs (fun _ hm => hm) hu he⟩
      rw [h₂ y, hun.laden_iff]
      constructor
      · intro hy
        obtain ⟨hy, hrest⟩ := hy
        have hy₁ := hun.laden_iff.2 hy
        refine ⟨hy.1, fun d hm => ?_⟩
        obtain hm | hm := List.mem_cons.1 hm
        · exact Unset.contents.inj hm ▸ hy.2
        · exact fun hu => hrest d hm ((hunder hy₁ d).2 hu)
      · intro hy
        obtain ⟨hy, hall⟩ := hy
        have hnot := hall c List.mem_cons_self
        have hy₁ := hun.laden_iff.2 ⟨hy, hnot⟩
        refine ⟨⟨hy, hnot⟩, fun d hm hu => ?_⟩
        exact hall d (List.mem_cons_of_mem _ hm) ((hunder hy₁ d).1 hu)

/-! ## Where an element was filled -/

/-- A rival of an element holds data that the plan of a change of the element leaves
alone. -/
def Escapes (t : Tree) (x : ElementId) : Prop :=
  ∃ p b y, t.plan x none = .ok p ∧ t.Rival x b ∧ t.Within b y ∧ t.Laden y ∧
    ∀ c, .contents c ∈ p.unsets → ¬ t.Under c y

/-- The element `x` was filled after its plan took what it takes; all other data is as it
was. -/
structure Fills (x : ElementId) (t t' : Tree) : Prop where
  sound : Sound t' ∅
  arranged : t'.Arranged
  thins : t.Thins t'
  other : ∃ p, t.plan x none = .ok p ∧ ∀ y, y ≠ x →
    (t'.Laden y ↔ t.Laden y ∧ ∀ c, .contents c ∈ p.unsets → ¬ t.Under c y)

/-- A child that stays has stayed with its container. -/
theorem Sound.mem_children_of_thins (h : Sound t ∅) (h' : Sound t' ∅) (ht : t.Thins t')
    {m : String} {ce : Element} (he : t.element? id = some e) (hm : (m, c) ∈ e.children)
    (hc : t'.element? c = some ce) :
    ∃ e', t'.element? id = some e' ∧ e'.choices = e.choices ∧ (m, c) ∈ e'.children := by
  obtain ⟨hcont, -, ce₀, hce₀, hpar, hname, -⟩ := h.child he hm
  obtain ⟨ce₁, hce₁, hb, -⟩ := ht hc
  obtain rfl : ce₀ = ce₁ := Option.some.inj (hce₀.symm.trans hce₁)
  have hpar' : ce.parent = some id := by rw [Element.parent_of_bare hb, hpar]
  obtain ⟨e', he', hbelow⟩ := h'.listed hc hpar' (Set.notMem_empty c)
  obtain ⟨e₀, he₀, hb', hch⟩ := ht he'
  obtain rfl : e = e₀ := Option.some.inj (he.symm.trans he₀)
  have hcont' : e'.content = .container := by
    refine Content.eq_container_of_bare ?_
    rw [Element.content_of_bare hb', hcont]
    rfl
  have hentries : Content.container.entries = [] := rfl
  rw [Element.below, hcont', hentries, List.append_nil] at hbelow
  obtain ⟨⟨m', c⟩, hm', rfl⟩ := List.mem_map.1 hbelow
  obtain ⟨-, -, ce₂, hce₂, -, hname', -⟩ := h.child he (hch hm')
  obtain rfl : ce₀ = ce₂ := Option.some.inj (hce₀.symm.trans hce₂)
  obtain rfl : m = m' := hname.symm.trans hname'
  exact ⟨e', he', Element.choices_of_bare hb', hm'⟩

/-- The way down to what stays is still there. -/
theorem Sound.within_of_thins (h : Sound t ∅) (h' : Sound t' ∅) (ht : t.Thins t')
    (hw : t.Within c x) (hx : (t'.element? x).isSome) :
    t'.Within c x ∧ (t'.element? c).isSome := by
  induction hw using Relation.ReflTransGen.head_induction_on with
  | refl => exact ⟨.refl, hx⟩
  | head hc _ ih =>
    obtain ⟨hw', hd⟩ := ih
    obtain ⟨de, hde⟩ := Option.isSome_iff_exists.1 hd
    obtain ⟨e, name, he, hm⟩ := hc
    obtain ⟨e', he', -, hm'⟩ := h.mem_children_of_thins h' ht he hm hde
    exact ⟨Relation.ReflTransGen.head ⟨e', name, he', hm'⟩ hw', by rw [he']; rfl⟩

/-- **When filling breaks exclusivity**: a tree that was exclusive is so after an element was
filled exactly if no data of a rival has escaped its plan. -/
theorem Fills.exclusive_iff (h : Sound t ∅) (ha : t.Arranged) (hf : Fills x t t')
    (hex : t.Exclusive) (hx : t'.Laden x) : t'.Exclusive ↔ ¬ t.Escapes x := by
  obtain ⟨p, hp, hother⟩ := hf.other
  have hnot : ∀ {b y}, t'.Rival x b → t'.Within b y → y ≠ x := by
    intro b y hr hw hyx
    subst hyx
    exact hf.sound.not_within_of_rival
      (fun he hm hk hk' => hf.arranged.case_unique hf.sound he hm hk hk') hr hw
  constructor
  · intro hex' hesc
    obtain ⟨p', b, y, hp', hr, hw, hy, hfree⟩ := hesc
    obtain rfl : p = p' := Except.ok.inj (hp.symm.trans hp')
    have hyx : y ≠ x := by
      intro hyx
      subst hyx
      exact h.not_within_of_rival (fun he hm hk hk' => ha.case_unique h he hm hk hk') hr hw
    have hy' := (hother y hyx).2 ⟨hy, hfree⟩
    have hlive : ∀ {z}, t'.Laden z → (t'.element? z).isSome := by
      intro z hz
      obtain ⟨ze, hze, -⟩ := hz
      rw [hze]
      rfl
    obtain ⟨id, e, k, k', m, m', c, he, hk, hk', hkk, hm, hm', hcx⟩ := hr
    obtain ⟨hcx', hc⟩ := h.within_of_thins hf.sound hf.thins hcx (hlive hx)
    obtain ⟨hby', hb⟩ := h.within_of_thins hf.sound hf.thins hw (hlive hy')
    obtain ⟨ce, hce⟩ := Option.isSome_iff_exists.1 hc
    obtain ⟨be, hbe⟩ := Option.isSome_iff_exists.1 hb
    obtain ⟨e', he', hchoices, hm⟩ := h.mem_children_of_thins hf.sound hf.thins he hm hce
    obtain ⟨e'', he'', -, hm'⟩ := h.mem_children_of_thins hf.sound hf.thins he hm' hbe
    obtain rfl : e' = e'' := Option.some.inj (he'.symm.trans he'')
    have hr' : t'.Rival x b :=
      ⟨id, e', k, k', m, m', c, he', hchoices ▸ hk, hchoices ▸ hk', hkk, hm, hm', hcx'⟩
    exact hf.sound.exclusive_iff.1 hex' hx hr' hby' hy'
  · intro hno
    refine hf.sound.exclusive_of_rivals (x := x) (fun z b y hz hy hlz hr hw hly => ?_)
      fun {b y} hr hw hy => ?_
    · have hlz' := ((hother z hz).1 hlz).1
      have hly' := ((hother y hy).1 hly).1
      exact h.exclusive_iff.1 hex hlz' (hf.thins.rival hr) (hf.thins.within hw) hly'
    · obtain ⟨hy', hfree⟩ := (hother y (hnot hr hw)).1 hy
      exact hno ⟨p, b, y, hp, hf.thins.rival hr, hf.thins.within hw, hy', hfree⟩

/-! ## Filling one element -/

/-- If the element holds data afterwards, then it was filled or nothing happened at all. -/
def MayFill (x : ElementId) (t t' : Tree) : Prop := t'.Laden x → t' = t ∨ Fills x t t'

/-- A change that is no change keeps exclusivity, and then nothing has escaped. -/
theorem MayFill.exclusive_iff (h : Sound t ∅) (ha : t.Arranged) (hf : MayFill x t t')
    (hex : t.Exclusive) (hx : t'.Laden x) : t'.Exclusive ↔ ¬ t.Escapes x := by
  obtain rfl | hf := hf hx
  · refine ⟨fun _ hesc => ?_, fun _ => hex⟩
    obtain ⟨p, b, y, -, hr, hw, hy, -⟩ := hesc
    exact h.exclusive_iff.1 hex hx hr hw hy
  · exact hf.exclusive_iff h ha hex hx

/-- Marking at the end. -/
theorem Fills.markChanged (hf : Fills x t t') (ids : List ElementId) :
    (markChanged ids).Ensures t' (fun _ => Fills x t) fun _ => Fills x t := by
  refine ensures_of_rel (R := fun _ t'' => Fills x t t'') ?_
  have hsame := sameFrame_markChanged ids t'
  obtain ⟨p, hp, hother⟩ := hf.other
  exact
    { sound := hf.sound.sameFrame hsame
      arranged := hf.arranged.retains hsame.retains
      thins := trans_of Thins hf.thins hsame.retains.thins
      other := ⟨p, hp, fun y hy => by
        rw [laden_of_held (sameData_markChanged ids t' y), hother y hy]⟩ }

/-- A value of a type without references does not depend on the tree. -/
theorem constructOn_eq {resolve : ReferenceType → Edit ReferenceValue} {raw : Value}
    {type : LeafType} (h : type.involvesReference = false) :
    constructOn resolve raw type = ofExcept (type.construct raw) := by
  cases type with
  | reference r => rw [LeafType.involvesReference] at h; cases h
  | union candidates => rw [constructOn, if_neg (by simp [h])]
  | _ => rw [constructOn] <;> simp

/-- Assigning to a leaf without references fills that leaf. -/
theorem mayFill_setLeaf (h : Sound t ∅) (ha : t.Arranged) (raw : Value)
    (hplain : ∀ {e type}, t.element? x = some e → leafType e = .ok type →
      type.involvesReference = false) :
    (setLeaf x raw).Ensures t (fun _ => MayFill x t) fun _ => MayFill x t := by
  have hstop : MayFill x t t := fun _ => .inl rfl
  rw [setLeaf, ensures_reading_bind]
  refine ⟨fun t₀ ht₀ => ?_, fun _ _ => hstop⟩
  obtain rfl : t = t₀ := Except.ok.inj ht₀
  rw [assignFrom, ensures_reading_bind]
  refine ⟨fun p hp => ?_, fun _ _ => hstop⟩
  rw [ensures_get_bind]
  refine ⟨fun e he => ?_, fun _ => hstop⟩
  rw [ensures_ofExcept_bind]
  refine ⟨fun type htype => ?_, fun _ _ => hstop⟩
  rw [constructOn_eq (hplain he htype), ensures_ofExcept_bind]
  refine ⟨fun value _ => ?_, fun _ _ => hstop⟩
  have hgood := (frameStable_sound ∅).plan h hp
  have hrun := ((fades_runUnsets h ha.declared hgood).and (laden_runUnsets h ha.declared hgood)).and
    (ensures_runUnsets_plan h ha hp)
  refine (hrun.mono (fun _ _ hd => hd.1) fun _ _ hf => hf.2.elim).bind fun _ t₂ h₂ => ?_
  obtain ⟨⟨h₂, hf, -⟩, hladen⟩ := h₂
  rw [ensures_bind, ensures_update]
  refine ⟨fun _ _ => ?_, fun hnone hx => ?_⟩
  · have hframe : t₂.SameFrame (t₂.modifyElement x (store value)) :=
      sameFrame_modifyElement fun e _ => frame_store value e
    have hfills : Fills x t (t₂.modifyElement x (store value)) :=
      { sound := h₂.sameFrame hframe
        arranged := (ha.retains hf.retains).retains hframe.retains
        thins := trans_of Thins hf.thins hframe.retains.thins
        other := ⟨p, hp, fun y hy => by
          rw [laden_congr (element?_modifyElement_of_ne hy _), hladen]⟩ }
    exact (hfills.markChanged p.marks).mono (fun _ _ hf _ => .inr hf) fun _ _ hf _ => .inr hf
  · obtain ⟨xe, hxe, -⟩ := hx
    rw [hnone] at hxe
    cases hxe

/-- Changing the items of an element fills that element. -/
theorem mayFill_changeItems {content : Content} (h : Sound t ∅) (ha : t.Arranged)
    (hp : t.plan x none = .ok p) (he : t.element? x = some e)
    (hsame : e.content.SameFrame content) :
    (do update x fun e => { e with content }
        commit p : Edit Unit).Ensures t (fun _ => Fills x t) fun _ => MayFill x t := by
  rw [ensures_bind, ensures_update]
  refine ⟨fun _ _ => ?_, fun _ _ => .inl rfl⟩
  have hframe : t.SameFrame (t.modifyElement x fun e => { e with content }) := by
    refine sameFrame_modifyElement fun e' he' => ?_
    obtain rfl : e = e' := Option.some.inj (he.symm.trans he')
    exact Element.frame_of_content hsame
  have h₁ := h.sameFrame hframe
  have ha₁ := ha.retains hframe.retains
  have hgood := (frameStable_sound ∅).plan h hp
  have hp₁ : (t.modifyElement x fun e => { e with content }).planFrom (x.index + 1) x none =
      .ok p := by
    refine planFrom_of_bare h₁ (hframe.retains.thins.bareTo x) ?_ (fun y hy => hy.elim) hp
    rw [isSome_element?_modifyElement, he]
    rfl
  have hrun :=
    ((fades_runUnsets h₁ ha₁.declared hgood).and (laden_runUnsets h₁ ha₁.declared hgood)).and
    (ensures_runUnsets_plan h₁ ha₁ hp₁)
  refine (hrun.mono (fun _ _ hd => hd.1) fun _ _ hf => hf.2.elim).bind fun _ t₂ h₂ => ?_
  obtain ⟨⟨h₂, hf, -⟩, hladen⟩ := h₂
  have hunder : ∀ {c y}, (t.modifyElement x fun e => { e with content }).Under c y ↔ t.Under c y :=
    ⟨hframe.shrinks.under, hframe.symm.shrinks.under⟩
  have hfills : Fills x t t₂ :=
    { sound := h₂
      arranged := ha₁.retains hf.retains
      thins := trans_of Thins hframe.retains.thins hf.thins
      other := ⟨p, hp, fun y hy => by
        rw [hladen, laden_congr (element?_modifyElement_of_ne hy _)]
        simp only [hunder]⟩ }
  exact (hfills.markChanged p.marks).mono (fun _ _ hf => hf) fun _ _ hf _ => .inr hf

/-- What does not touch the elements does not matter. -/
theorem Fills.of_slots (hf : Fills x t t') {t'' : Tree} (hs : t''.slots = t'.slots)
    (hl : t''.live = t'.live) (hm : t''.madeKeys = t'.madeKeys) : Fills x t t'' := by
  have hsame := sameFrame_of_slots hs hl hm
  obtain ⟨p, hp, hother⟩ := hf.other
  exact
    { sound := hf.sound.sameFrame hsame
      arranged := hf.arranged.retains hsame.retains
      thins := trans_of Thins hf.thins hsame.retains.thins
      other := ⟨p, hp, fun y hy => by rw [laden_congr (element?_congr hs y), hother y hy]⟩ }

theorem mayFill_editItem (h : Sound t ∅) (ha : t.Arranged) (op : ItemEdit) :
    (editItem x op).Ensures t (fun _ => MayFill x t) fun _ => MayFill x t := by
  have hstop : MayFill x t t := fun _ => .inl rfl
  rw [editItem, ensures_reading_bind]
  refine ⟨fun p hp => ?_, fun _ _ => hstop⟩
  rw [ensures_get_bind]
  refine ⟨fun e he => ?_, fun _ => hstop⟩
  rw [ensures_ofExcept_bind]
  refine ⟨fun r hr => ?_, fun _ _ => hstop⟩
  obtain ⟨item, content⟩ := r
  have hchange := mayFill_changeItems h ha hp he (Content.sameFrame_of_edit hr)
  rw [ensures_bind] at hchange ⊢
  refine hchange.mono (fun _ t₁ h₁ => h₁.bind fun _ t₂ hf => ?_) fun _ _ hf => hf
  rw [ensures_get_bind]
  refine ⟨fun e₂ _ => ?_, fun _ _ => .inr hf⟩
  rw [ensures_changing_bind]
  intro _
  right
  split
  · exact hf.of_slots (by simp [registerMember]) (by simp [registerMember])
      (by simp [registerMember])
  · exact hf.of_slots (by simp [unregisterMember]) (by simp [unregisterMember])
      (by simp [unregisterMember])

theorem mayFill_extend (h : Sound t ∅) (ha : t.Arranged) (raws : List Value) :
    (extend x raws).Ensures t (fun _ => MayFill x t) fun _ => MayFill x t := by
  have hstop : MayFill x t t := fun _ => .inl rfl
  rw [extend, ensures_reading_bind]
  refine ⟨fun p hp => ?_, fun _ _ => hstop⟩
  rw [ensures_get_bind]
  refine ⟨fun e he => ?_, fun _ => hstop⟩
  rw [ensures_ofExcept_bind]
  refine ⟨fun r hr => ?_, fun _ _ => hstop⟩
  obtain ⟨items, content⟩ := r
  have hchange := mayFill_changeItems h ha hp he (Content.sameFrame_of_extend hr)
  rw [ensures_bind] at hchange ⊢
  refine hchange.mono (fun _ t₁ h₁ => h₁.bind fun _ t₂ hf => ?_) fun _ _ hf => hf
  refine (ensures_forM (I := fun _ => Fills x t) (fun item _ t₃ hf => ?_) hf).mono
    (fun _ _ hf => hf) (fun _ _ hf => hf) |>.bind fun _ _ hf _ => .inr hf
  rw [ensures_get_bind]
  refine ⟨fun e' _ => ?_, fun _ _ => .inr hf⟩
  exact hf.of_slots (by simp [registerMember]) (by simp [registerMember]) (by simp [registerMember])

end DataTree.Tree
