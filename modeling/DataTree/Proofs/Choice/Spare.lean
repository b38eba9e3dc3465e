import DataTree.Proofs.Choice.Escape
import DataTree.Proofs.Schema.Nodes

/-!
# DataTree.Proofs.Choice.Spare

What filling an element leaves alone.

Unsetting reaches what is under the unset element, and nothing else
(`ran_runUnsets`).  So the assignment to a leaf, and an edit of its items to a
leaf-list, changes what the element itself holds and what is under the hooks of its
plan (`put_setLeaf`, `put_editItem`, `put_extend`).
-/

namespace DataTree.Tree

open Edit Outcome

variable {t t' t'' : Tree} {pending : Set ElementId} {id x y : ElementId} {e : Element} {p : Plan}
  {hooks : List Unset} {content : Content}

/-! ## Running hooks -/

/-- None of the hooks unsets something that the element is under. -/
def Free (t : Tree) (hooks : List Unset) (y : ElementId) : Prop :=
  ∀ c, .contents c ∈ hooks → ¬ t.Under c y

/-- What running hooks leaves: what is free of them as it was, and all other data gone.  An
element goes only with the entry that it is under. -/
structure Ran (hooks : List Unset) (pending : Set ElementId) (t t' : Tree) : Prop where
  sound : Sound t' pending
  shrinks : t.Shrinks t'
  stays : ∀ {y}, t.Free hooks y → t'.element? y = t.element? y
  laden_iff : ∀ y, t'.Laden y ↔ t.Laden y ∧ t.Free hooks y
  gone : ∀ {y}, (t.element? y).isSome → t'.element? y = none →
    ∃ k, ¬ t.Free hooks k ∧ t.Laden k ∧ t.Under k y ∧ y ≠ k

/-- What unsetting takes away was under a list with entries. -/
theorem Unsets.exists_of_gone (h : Sound t pending) (hun : Unsets id t t')
    (hy : (t.element? y).isSome) (hgone : t'.element? y = none) :
    ∃ k, t.Under id k ∧ t.Laden k ∧ t.Under k y ∧ y ≠ k := by
  have hu : t.Under id y := by
    by_contra hno
    rw [hun.stays hno] at hgone
    rw [hgone] at hy
    cases hy
  obtain hw | ⟨k, ke, hk, hke, hc, hku, hne⟩ := h.within_or_below hu
  · rw [hun.within hw, Option.map_eq_none_iff] at hgone
    rw [hgone] at hy
    cases hy
  · refine ⟨k, hk.under, ⟨ke, hke, ?_⟩, hku, hne⟩
    by_contra hdata
    rw [Bool.not_eq_true] at hdata
    refine hne (eq_of_under_of_below hke ?_ hku)
    rw [Element.below_eq, h.children_eq_nil hke hc, Content.links_eq_nil hdata]
    rfl

/-- Running hooks one after another. -/
theorem ran_of_runUnsets (h : Sound t pending) (hd : t.Declared)
    (hh : ∀ hook ∈ hooks, ∃ c, hook = .contents c) :
    (runUnsets hooks).Ensures t (fun _ => Ran hooks pending t) fun _ _ => True := by
  suffices hrest : (runUnsets hooks).Ensures t (fun _ t' => Sound t' pending ∧ t.Shrinks t' ∧
      (∀ {y}, t.Free hooks y → t'.element? y = t.element? y) ∧
      ∀ {y}, (t.element? y).isSome → t'.element? y = none →
        ∃ k, ¬ t.Free hooks k ∧ t.Laden k ∧ t.Under k y ∧ y ≠ k) fun _ _ => True by
    refine (hrest.and (laden_runUnsets h hd hh)).mono (fun _ t' hp => ?_) fun _ _ _ => trivial
    obtain ⟨⟨h', hs, hstays, hgone⟩, hladen⟩ := hp
    exact ⟨h', hs, hstays, hladen, hgone⟩
  induction hooks generalizing t with
  | nil =>
    refine ⟨h, refl_of Shrinks t, fun _ => rfl, fun hy hnone => ?_⟩
    rw [hnone] at hy
    cases hy
  | cons hook hooks ih =>
    obtain ⟨c, rfl⟩ := hh _ List.mem_cons_self
    show (unset c >>= fun _ => runUnsets hooks).Ensures t _ _
    cases hc : t.element? c with
    | none =>
      rw [ensures_bind, ensures_of_error (on_unset_of_none hc)]
      trivial
    | some ce =>
      have hstep := ((h.unset hd hc).and ((sound_unset pending c).ensures t)).and
        ((shrinks_unset c).ensures t)
      refine (hstep.mono (fun _ _ hp => hp) fun _ _ _ => trivial).bind fun _ t₁ h₁ => ?_
      obtain ⟨⟨hun, h₁⟩, hs⟩ := h₁
      refine (ih (h₁ h) (hd.retains hun.fades.retains) fun hook hm =>
        hh hook (List.mem_cons_of_mem _ hm)).mono (fun _ t₂ h₂ => ?_) fun _ _ hf => hf
      obtain ⟨h₂, hs₂, hstays, hgone⟩ := h₂
      refine ⟨h₂, trans_of Shrinks hs hs₂, fun {y} hy => ?_, fun {y} hy hnone => ?_⟩
      · have hy₁ : t₁.element? y = t.element? y := hun.stays (hy c List.mem_cons_self)
        rw [hstays fun d hm hu => hy d (List.mem_cons_of_mem _ hm) (hs.under hu), hy₁]
      · cases hy₁ : t₁.element? y with
        | none =>
          obtain ⟨k, hk, hl, hku, hne⟩ := hun.exists_of_gone h hy hy₁
          exact ⟨k, fun hfree => hfree c List.mem_cons_self hk, hl, hku, hne⟩
        | some ye =>
          obtain ⟨k, hk, hl, hku, hne⟩ := hgone (by rw [hy₁]; rfl) hnone
          refine ⟨k, fun hfree => hk fun d hm hu => ?_, hun.fades.laden hl, hs.under hku, hne⟩
          exact hfree d (List.mem_cons_of_mem _ hm) (hs.under hu)

/-- A hook that fails changes nothing: the hooks before it are those that were run. -/
theorem exists_done_of_runUnsets (h : Sound t pending) (hd : t.Declared)
    (hh : ∀ hook ∈ hooks, ∃ c, hook = .contents c) {err : Error}
    (hfail : (runUnsets hooks).on t = (.error err, t')) :
    ∃ done, done ⊆ hooks ∧ (runUnsets done).on t = (.ok (), t') := by
  induction hooks generalizing t with
  | nil => cases hfail
  | cons hook hooks ih =>
    obtain ⟨c, rfl⟩ := hh _ List.mem_cons_self
    have hon : ∀ rest, (runUnsets (.contents c :: rest)).on t
        = (unset c >>= fun _ => runUnsets rest).on t := fun _ => rfl
    rw [hon, on_bind] at hfail
    have hstep := fades_unset h hd c
    cases hrun : (unset c).on t with
    | mk r t₁ =>
      rw [hrun] at hfail
      cases r with
      | error err' =>
        obtain ⟨rfl, -⟩ := hstep.of_error hrun
        obtain rfl := (Prod.mk.inj hfail).2
        exact ⟨[], List.nil_subset _, rfl⟩
      | ok u =>
        obtain ⟨h₁, hf₁, -⟩ := hstep.of_ok hrun
        obtain ⟨done, hsub, hdone⟩ := ih h₁ (hd.retains hf₁.retains)
          (fun hook hm => hh hook (List.mem_cons_of_mem _ hm)) hfail
        refine ⟨.contents c :: done, List.cons_subset_cons _ hsub, ?_⟩
        rw [hon, on_bind, hrun]
        exact hdone

/-- Running hooks one after another, till the end or up to one that fails. -/
theorem ran_runUnsets (h : Sound t pending) (hd : t.Declared)
    (hh : ∀ hook ∈ hooks, ∃ c, hook = .contents c) :
    (runUnsets hooks).Ensures t (fun _ => Ran hooks pending t)
      fun _ t' => ∃ done, done ⊆ hooks ∧ Ran done pending t t' := by
  have hall := ran_of_runUnsets h hd hh
  refine ensures_iff.2 ⟨fun _ _ hok => hall.of_ok hok, fun _ t' hfail => ?_⟩
  obtain ⟨done, hsub, hok⟩ := exists_done_of_runUnsets h hd hh hfail
  exact ⟨done, hsub, (ran_of_runUnsets h hd fun hook hm => hh hook (hsub hm)).of_ok hok⟩

/-! ## Filling -/

/-- The element `x` was made to hold something else, and `hooks` were run for it. -/
structure Put (x : ElementId) (hooks : List Unset) (pending : Set ElementId)
    (t t' : Tree) : Prop where
  sound : Sound t' pending
  shrinks : t.Shrinks t'
  stays : ∀ {y}, y ≠ x → t.Free hooks y → t'.held y = t.held y
  laden_iff : ∀ {y}, y ≠ x → (t'.Laden y ↔ t.Laden y ∧ t.Free hooks y)
  gone : ∀ {y}, (t.element? y).isSome → t'.element? y = none →
    ∃ k ≠ x, ¬ t.Free hooks k ∧ t.Laden k ∧ t.Under k y

/-- What comes after the hooks does not matter if it changes neither structure nor data. -/
theorem Put.congr (h : Put x hooks pending t t') (hs : t'.SameFrame t'')
    (hheld : ∀ {y}, y ≠ x → t''.held y = t'.held y) : Put x hooks pending t t'' where
  sound := h.sound.sameFrame hs
  shrinks := trans_of Shrinks h.shrinks hs.shrinks
  stays := fun hy hfree => by rw [hheld hy, h.stays hy hfree]
  laden_iff := fun hy => by rw [laden_of_held (hheld hy), h.laden_iff hy]
  gone := fun hy hnone => by
    refine h.gone hy ?_
    have hsome := hs.isSome
    rw [← Option.not_isSome_iff_eq_none, ← hsome, hnone]
    simp

/-- Marking at the end. -/
theorem Put.markChanged (h : Put x hooks pending t t') (ids : List ElementId) :
    (markChanged ids).Ensures t' (fun _ t'' => Put x hooks pending t t'' ∧ t''.held x = t'.held x)
      fun _ t'' => Put x hooks pending t t'' ∧ t''.held x = t'.held x :=
  ensures_of_rel (R := fun _ t'' => Put x hooks pending t t'' ∧ t''.held x = t'.held x)
    ⟨h.congr (sameFrame_markChanged ids t') fun _ => sameData_markChanged ids t' _,
      sameData_markChanged ids t' x⟩

/-- Nothing has happened yet. -/
theorem Sound.put_nil (h : Sound t pending) (x : ElementId) : Put x [] pending t t where
  sound := h
  shrinks := refl_of Shrinks t
  stays := fun _ _ => rfl
  laden_iff := fun _ => (and_iff_left fun _ hm => by cases hm).symm
  gone := fun hy hnone => by
    rw [hnone] at hy
    cases hy

theorem held_modifyElement_of_ne {f : Element → Element} (h : y ≠ x) :
    (t.modifyElement x f).held y = t.held y := held_congr (element?_modifyElement_of_ne h f)

/-- What has nothing below it is not above anything else. -/
theorem ne_of_below {k : ElementId} (he : t.element? x = some e) (hb : e.below = [])
    (hu : t.Under k y) (hne : y ≠ k) : k ≠ x := by
  rintro rfl
  exact hne (eq_of_under_of_below he hb hu)

theorem Sound.below_eq_nil (h : Sound t pending) (he : t.element? x = some e)
    (hc : e.content ≠ .container) (hl : e.content.links = []) : e.below = [] := by
  rw [Element.below_eq, h.children_eq_nil he hc, hl]
  rfl

/-- Running hooks for a leaf. -/
theorem Ran.put {slot : LeafSlot} (hran : Ran hooks pending t t') (h : Sound t pending)
    (he : t.element? x = some e) (hslot : e.content = .leaf slot) : Put x hooks pending t t' where
  sound := hran.sound
  shrinks := hran.shrinks
  stays := fun _ hfree => held_congr (hran.stays hfree)
  laden_iff := fun _ => hran.laden_iff _
  gone := fun hy hnone => by
    obtain ⟨k, hk, hl, hu, hne⟩ := hran.gone hy hnone
    have hbelow := h.below_eq_nil he (by simp [hslot]) (by rw [hslot]; rfl)
    exact ⟨k, ne_of_below he hbelow hu hne, hk, hl, hu⟩

/-- Assigning to a leaf without references puts the value into it, and changes nothing else
but what is under the hooks of the plan; if it fails, part of these hooks may have been run. -/
theorem put_setLeaf (h : Sound t pending) (hd : t.Declared) (raw : Value)
    (hplain : ∀ {e type}, t.element? x = some e → leafType e = .ok type →
      type.involvesReference = false) :
    (setLeaf x raw).Ensures t (fun _ t' => ∃ p slot value, t.plan x none = .ok p ∧
      t.held x = some (.leaf slot) ∧ slot.type.construct raw = .ok value ∧
      Put x p.unsets pending t t' ∧ t'.held x = some (.leaf { slot with value }))
      fun _ t' => ∃ hooks, Put x hooks pending t t' ∧
        ∀ hook ∈ hooks, ∃ p, t.plan x none = .ok p ∧ hook ∈ p.unsets := by
  have hstop : ∃ hooks, Put x hooks pending t t ∧
      ∀ hook ∈ hooks, ∃ p, t.plan x none = .ok p ∧ hook ∈ p.unsets :=
    ⟨[], h.put_nil x, fun _ hm => by cases hm⟩
  rw [setLeaf, ensures_reading_bind]
  refine ⟨fun t₀ ht₀ => ?_, fun _ _ => hstop⟩
  obtain rfl : t = t₀ := Except.ok.inj ht₀
  rw [assignFrom, ensures_reading_bind]
  refine ⟨fun p hp => ?_, fun _ _ => hstop⟩
  rw [ensures_get_bind]
  refine ⟨fun e he => ?_, fun _ => hstop⟩
  rw [ensures_ofExcept_bind]
  refine ⟨fun type htype => ?_, fun _ _ => hstop⟩
  rw [constructOn_eq (hplain he htype), ensures_ofExcept_bind]
  refine ⟨fun value hvalue => ?_, fun _ _ => hstop⟩
  obtain ⟨slot, hslot, rfl⟩ := leafType_eq_ok_iff.1 htype
  have hrun := ran_runUnsets h hd ((frameStable_sound pending).plan h hp)
  refine (hrun.mono (fun _ _ hran => hran) fun _ t₂ hf => ?_).bind fun _ t₂ hran => ?_
  · obtain ⟨done, hsub, hran⟩ := hf
    exact ⟨done, hran.put h he hslot, fun hook hm => ⟨p, hp, hsub hm⟩⟩
  have hput := hran.put h he hslot
  have hall : ∀ hook ∈ p.unsets, ∃ p, t.plan x none = .ok p ∧ hook ∈ p.unsets :=
    fun _ hm => ⟨p, hp, hm⟩
  rw [ensures_bind, ensures_update]
  refine ⟨fun e₂ he₂ => ?_, fun _ => ⟨p.unsets, hput, hall⟩⟩
  obtain ⟨e₀, he₀, hse⟩ := hran.shrinks.element he₂
  obtain rfl : e = e₀ := Option.some.inj (he.symm.trans he₀)
  have hframe : t₂.SameFrame (t₂.modifyElement x (store value)) :=
    sameFrame_modifyElement fun e _ => frame_store value e
  have hstored := held_store value he₂ hse.bare hslot
  refine ((hput.congr hframe held_modifyElement_of_ne).markChanged p.marks).mono (fun _ t₃ h₃ => ?_)
    fun _ t₃ h₃ => ⟨p.unsets, h₃.1, hall⟩
  exact ⟨p, slot, value, hp, held_eq_some_iff.2 ⟨e, he, hslot⟩, hvalue, h₃.1, by rw [h₃.2, hstored]⟩

/-- Putting changed items into an element and carrying out its plan. -/
theorem put_changeItems (h : Sound t pending) (hd : t.Declared) (hp : t.plan x none = .ok p)
    (he : t.element? x = some e) (hsame : e.content.SameFrame content) (hbelow : e.below = []) :
    (do update x fun e => { e with content }
        commit p : Edit Unit).Ensures t (fun _ t' => Put x p.unsets pending t t' ∧
          (t.Free p.unsets x → t'.held x = some content)) fun _ _ => True := by
  rw [ensures_bind, ensures_update]
  refine ⟨fun _ _ => ?_, fun _ => trivial⟩
  let t₁ := t.modifyElement x fun e => { e with content }
  have hframe : t.SameFrame t₁ := by
    refine sameFrame_modifyElement fun e' he' => ?_
    obtain rfl : e = e' := Option.some.inj (he.symm.trans he')
    exact Element.frame_of_content hsame
  have hother : ∀ {y}, y ≠ x → t₁.held y = t.held y := fun hy => held_modifyElement_of_ne hy
  have hself : t₁.held x = some content := by
    rw [held, element?_modifyElement_self he]
    rfl
  have hfree : ∀ {y}, t₁.Free p.unsets y ↔ t.Free p.unsets y := by
    intro y
    exact ⟨fun hf c hm hu => hf c hm (hframe.symm.shrinks.under hu),
      fun hf c hm hu => hf c hm (hframe.shrinks.under hu)⟩
  have hrun := ran_runUnsets (h.sameFrame hframe) (hd.shrinks hframe.shrinks)
    ((frameStable_sound pending).plan h hp)
  refine (hrun.mono (fun _ _ hran => hran) fun _ _ _ => trivial).bind fun _ t₂ hran => ?_
  have hput : Put x p.unsets pending t t₂ :=
    { sound := hran.sound
      shrinks := trans_of Shrinks hframe.shrinks hran.shrinks
      stays := fun hy hf => by rw [held_congr (hran.stays (hfree.2 hf)), hother hy]
      laden_iff := fun hy => by rw [hran.laden_iff, laden_of_held (hother hy), hfree]
      gone := fun {y} hy hnone => by
        obtain ⟨k, hk, hl, hu, hne⟩ := hran.gone (by rw [hframe.isSome]; exact hy) hnone
        have hkx := ne_of_below he hbelow (hframe.shrinks.under hu) hne
        exact ⟨k, hkx, fun hf => hk (hfree.2 hf), (laden_of_held (hother hkx)).1 hl,
          hframe.shrinks.under hu⟩ }
  refine (hput.markChanged p.marks).mono (fun _ t₃ h₃ => ⟨h₃.1, fun hf => ?_⟩) fun _ _ _ => trivial
  rw [h₃.2, held_congr (hran.stays (hfree.2 hf)), hself]

/-- Adding the registrations of items, or dropping them, changes no element. -/
theorem Put.of_slots (h : Put x hooks pending t t') (hs : t''.slots = t'.slots)
    (hl : t''.live = t'.live) (hm : t''.madeKeys = t'.madeKeys) : Put x hooks pending t t'' :=
  h.congr (sameFrame_of_slots hs hl hm) fun _ => held_congr (element?_congr hs _)

/-- In a tree of a schema only leaf-lists have items. -/
theorem Declared.exists_leafList_of_edit (hd : t.Declared) (he : t.element? id = some e)
    {op : ItemEdit} {r : Value × Content} (h : e.content.edit op = .ok r) :
    ∃ l l', e.content = .leafList l ∧ l.edit op = .ok (r.1, l') ∧ r.2 = .leafList l' := by
  cases hc : e.content with
  | leafList l =>
    rw [hc, Content.edit] at h
    obtain ⟨⟨v, l'⟩, hedit, rfl⟩ := map_eq_ok.1 h
    exact ⟨l, l', rfl, hedit, rfl⟩
  | custom c => exact absurd (hd he) (by simp [hc, Content.IsDeclared])
  | _ => simp [hc, Content.edit] at h

theorem Declared.exists_leafList_of_extend (hd : t.Declared) (he : t.element? id = some e)
    {raws : List Value} {r : List Value × Content} (h : e.content.extend raws = .ok r) :
    ∃ l l', e.content = .leafList l ∧ l.extend raws = .ok (r.1, l') ∧ r.2 = .leafList l' := by
  cases hc : e.content with
  | leafList l =>
    rw [hc, Content.extend] at h
    obtain ⟨⟨v, l'⟩, hextend, rfl⟩ := map_eq_ok.1 h
    exact ⟨l, l', rfl, hextend, rfl⟩
  | custom c => exact absurd (hd he) (by simp [hc, Content.IsDeclared])
  | _ => simp [hc, Content.extend] at h

/-- Editing the items of a declared element, which is a leaf-list then. -/
theorem put_editItem (h : Sound t pending) (hd : t.Declared) (op : ItemEdit) :
    (editItem x op).Ensures t (fun item t' => ∃ p l l', t.plan x none = .ok p ∧
      t.held x = some (.leafList l) ∧ l.edit op = .ok (item, l') ∧ Put x p.unsets pending t t' ∧
      (t.Free p.unsets x → t'.held x = some (.leafList l'))) fun _ _ => True := by
  rw [editItem, ensures_reading_bind]
  refine ⟨fun p hp => ?_, fun _ _ => trivial⟩
  rw [ensures_get_bind]
  refine ⟨fun e he => ?_, fun _ => trivial⟩
  rw [ensures_ofExcept_bind]
  refine ⟨fun r hr => ?_, fun _ _ => trivial⟩
  obtain ⟨item, content⟩ := r
  obtain ⟨l, l', hl, hedit, rfl⟩ := hd.exists_leafList_of_edit he hr
  have hbelow := h.below_eq_nil he (by simp [hl]) (by rw [hl]; rfl)
  have hchange := put_changeItems h hd hp he (Content.sameFrame_of_edit hr) hbelow
  rw [ensures_bind] at hchange ⊢
  refine hchange.mono (fun _ t₁ h₁ => h₁.bind fun _ t₂ h₂ => ?_) fun _ _ _ => trivial
  obtain ⟨hput, hself⟩ := h₂
  rw [ensures_get_bind]
  refine ⟨fun e₂ _ => ?_, fun _ => trivial⟩
  rw [ensures_changing_bind]
  refine ⟨p, l, l', hp, held_eq_some_iff.2 ⟨e, he, hl⟩, hedit, ?_, fun hf => ?_⟩
  · split
    · exact hput.of_slots (by simp [registerMember]) (by simp [registerMember])
        (by simp [registerMember])
    · exact hput.of_slots (by simp [unregisterMember]) (by simp [unregisterMember])
        (by simp [unregisterMember])
  · rw [← hself hf]
    refine held_congr (element?_congr ?_ x)
    split <;> simp [registerMember, unregisterMember]

/-- The same for several items at once. -/
theorem put_extend (h : Sound t pending) (hd : t.Declared) (raws : List Value) :
    (extend x raws).Ensures t (fun items t' => ∃ p l, t.plan x none = .ok p ∧
      t.held x = some (.leafList l) ∧ Put x p.unsets pending t t' ∧
      (t.Free p.unsets x → t'.held x = some (.leafList { l with items := l.items ++ items })))
      fun _ _ => True := by
  rw [extend, ensures_reading_bind]
  refine ⟨fun p hp => ?_, fun _ _ => trivial⟩
  rw [ensures_get_bind]
  refine ⟨fun e he => ?_, fun _ => trivial⟩
  rw [ensures_ofExcept_bind]
  refine ⟨fun r hr => ?_, fun _ _ => trivial⟩
  obtain ⟨items, content⟩ := r
  obtain ⟨l, l', hl, hextend, rfl⟩ := hd.exists_leafList_of_extend he hr
  obtain ⟨ws, -, hextend⟩ := bind_eq_ok.1 hextend
  obtain ⟨rfl, rfl⟩ := Prod.mk.inj (pure_eq_ok.1 hextend)
  have hbelow := h.below_eq_nil he (by simp [hl]) (by rw [hl]; rfl)
  have hchange := put_changeItems h hd hp he (Content.sameFrame_of_extend hr) hbelow
  rw [ensures_bind] at hchange ⊢
  refine hchange.mono (fun _ t₁ h₁ => h₁.bind fun _ t₂ h₂ => ?_) fun _ _ _ => trivial
  refine ((ensures_forM (I := fun _ t' => Put x p.unsets pending t t' ∧ t'.held x = t₂.held x)
    (fun item _ t' h' => ?_) ⟨h₂.1, rfl⟩).bind fun _ t₃ h₃ => ?_)
  · rw [ensures_get_bind]
    refine ⟨fun e' _ => ?_, fun _ => trivial⟩
    refine ⟨h'.1.of_slots (by simp [registerMember]) (by simp [registerMember])
      (by simp [registerMember]), ?_⟩
    rw [← h'.2]
    exact held_congr (element?_congr (by simp [registerMember]) x)
  · refine ⟨p, l, hp, held_eq_some_iff.2 ⟨e, he, hl⟩, h₃.1, fun hf => ?_⟩
    rw [h₃.2, h₂.2 hf]

end DataTree.Tree
