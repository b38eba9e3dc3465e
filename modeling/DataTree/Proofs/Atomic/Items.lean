import DataTree.Proofs.Accept.Plans

/-!
# DataTree.Proofs.Atomic.Items

When changing the items of a leaf-list, and failing, has changed nothing.

The items are changed before the siblings are unset, so that an error of a sibling comes
too late.

* On a pliable tree no sibling refuses, and nothing that comes later can fail.
* In a tree of a schema whose choices are apart everything depends on the hooks: a change
  that fails leaves a trace exactly if the content took it and a hook leads to an element
  that was removed.
* On any other tree it depends on what carrying out the plan does once the items have
  changed (`Completes`).
-/

namespace DataTree

open Edit Outcome

/-! ## Contents that can be cleared -/

namespace Content

variable {c c' : Content}

/-- Editing what can be cleared gives what can be cleared. -/
theorem soft_of_edit {op : ItemEdit} {v : Value} (h : c.edit op = .ok (v, c')) (hs : c.Soft) :
    c'.Soft := by
  obtain hr | ⟨l, rfl, -⟩ := hs
  · exact .inl (hr.of_edit h)
  · cases h

theorem soft_of_extend {raws vs : List Value} (h : c.extend raws = .ok (vs, c')) (hs : c.Soft) :
    c'.Soft := by
  obtain hr | ⟨l, rfl, -⟩ := hs
  · exact .inl (hr.of_extend h)
  · cases h

end Content

/-! ## Items that have changed -/

/-- An edit of one item makes the list longer or shorter. -/
theorem LeafList.ne_of_edit {l l' : LeafList} {op : ItemEdit} {v : Value}
    (h : l.edit op = .ok (v, l')) : l' ≠ l := by
  suffices hlen : l'.items.length ≠ l.items.length from fun heq => hlen (heq ▸ rfl)
  cases op with
  | append raw =>
    obtain ⟨w, -, h⟩ := bind_eq_ok.1 h
    obtain ⟨-, rfl⟩ := Prod.mk.inj (pure_eq_ok.1 h)
    simp
  | insert index raw =>
    obtain ⟨w, -, h⟩ := bind_eq_ok.1 h
    obtain ⟨-, rfl⟩ := Prod.mk.inj (pure_eq_ok.1 h)
    simp only [List.length_append, List.length_cons, List.length_take, List.length_drop]
    omega
  | remove raw =>
    simp only [LeafList.edit, LeafList.remove, LeafList.pop] at h
    grind
  | pop index =>
    simp only [LeafList.edit, LeafList.pop] at h
    grind

theorem LeafList.ne_of_extend {l l' : LeafList} {raws vs : List Value} (hraws : raws ≠ [])
    (h : l.extend raws = .ok (vs, l')) : l' ≠ l := by
  obtain ⟨ws, hws, h⟩ := bind_eq_ok.1 h
  obtain ⟨-, rfl⟩ := Prod.mk.inj (pure_eq_ok.1 h)
  have hlen := (mapM_eq_ok.1 hws).length_eq
  have hpos := List.length_pos_of_ne_nil hraws
  intro heq
  have hitems := congrArg (fun l : LeafList => l.items.length) heq
  simp only [List.length_append] at hitems
  omega

namespace Tree

variable {t t' : Tree} {id : ElementId} {e : Element} {p : Plan} {content : Content}

/-! ## Failing without a trace -/

/-- If the edit fails, the tree is what it was. -/
def Traceless {α : Type} (x : Edit α) (t : Tree) : Prop :=
  x.Ensures t (fun _ _ => True) fun _ t' => t' = t

/-- Looking first leaves no trace. -/
theorem traceless_reading_bind {α β : Type} {f : Tree → Except Error α} {g : α → Edit β} :
    Traceless (reading f >>= g) t ↔ ∀ a, f t = .ok a → Traceless (g a) t := by
  rw [Traceless, ensures_reading_bind]
  exact and_iff_left fun _ _ => rfl

theorem traceless_ofExcept_bind {α β : Type} {r : Except Error α} {g : α → Edit β} :
    Traceless (Edit.ofExcept r >>= g) t ↔ ∀ a, r = .ok a → Traceless (g a) t :=
  traceless_reading_bind

theorem traceless_get_bind {β : Type} {g : Element → Edit β} :
    Traceless (get id >>= g) t ↔ ∀ e, t.element? id = some e → Traceless (g e) t := by
  rw [get, traceless_reading_bind]
  simp only [element_eq_ok_iff]

/-- If a last step fails exactly where `P` does not hold, and `P` holds before, then everything
before it has to end where `P` holds, or fail without a trace. -/
theorem traceless_bind_iff {α β : Type} {x : Edit α} {f : α → Edit β} {P : Tree → Prop} (hP : P t)
    (hf : ∀ a t', (f a).Ensures t' (fun _ _ => P t') fun _ t'' => t'' = t' ∧ ¬ P t') :
    Traceless (x >>= f) t ↔ x.Ensures t (fun _ => P) fun _ t' => t' = t := by
  rw [Traceless, ensures_bind]
  constructor
  · intro h
    refine h.mono (fun a t' hrest => ?_) fun _ _ hf => hf
    have hall := hrest.and (hf a t')
    unfold Ensures at hall
    split at hall
    · exact hall.2
    · next heq =>
      obtain ⟨rfl, rfl, hno⟩ := hall
      exact absurd hP hno
  · intro h
    refine h.mono (fun a t' hP' => ?_) fun _ _ hf => hf
    exact (hf a t').mono (fun _ _ _ => trivial) fun _ _ hno => absurd hP' hno.2

/-- With the new content in its place the plan can be carried out, and leaves the element if there
are items to be registered; or this fails without a trace. -/
def Completes (t : Tree) (id : ElementId) (p : Plan) (content : Content) (items : List Value) :
    Prop :=
  (do update id fun e => { e with content }
      commit p : Edit Unit).Ensures t (fun _ t' => items ≠ [] → (t'.element? id).isSome)
    fun _ t' => t' = t

theorem traceless_editItem_iff (id : ElementId) (op : ItemEdit) :
    Traceless (editItem id op) t ↔ ∀ p, t.plan id none = .ok p → ∀ e, t.element? id = some e →
      ∀ r, e.content.edit op = .ok r → t.Completes id p r.2 [r.1] := by
  rw [editItem, traceless_reading_bind]
  refine forall₂_congr fun p hp => traceless_get_bind.trans (forall₂_congr fun e he => ?_)
  refine traceless_ofExcept_bind.trans (forall₂_congr fun r hr => ?_)
  obtain ⟨item, content⟩ := r
  simp only
  rw [← bind_assoc, Completes]
  refine traceless_bind_iff (fun _ => by rw [he]; rfl) fun _ t' => ?_
  rw [ensures_get_bind]
  refine ⟨fun e' he' => ?_, fun hnone => ⟨rfl, fun hsome => ?_⟩⟩
  · rw [ensures_changing_bind]
    intro _
    rw [he']
    rfl
  · have hid := hsome (by simp)
    rw [hnone] at hid
    cases hid

/-- Items are registered exactly if their owner is there. -/
theorem ensures_registerMembers (id : ElementId) (items : List Value) (t : Tree) :
    (items.forM fun item => do
        let e ← get id
        changing fun t => t.registerMember e item).Ensures t
      (fun _ _ => items ≠ [] → (t.element? id).isSome)
      fun _ t' => t' = t ∧ ¬ (items ≠ [] → (t.element? id).isSome) := by
  cases items with
  | nil => exact fun hne => absurd rfl hne
  | cons item items =>
    cases hid : t.element? id with
    | none =>
      show (get id >>= _ >>= fun _ => _).Ensures t _ _
      rw [bind_assoc, ensures_get_bind]
      refine ⟨fun e he => ?_, fun _ => ⟨rfl, fun hsome => ?_⟩⟩
      · rw [hid] at he
        cases he
      · have hid' := hsome (by simp)
        cases hid'
    | some e =>
      have hall : ((item :: items).forM fun item => do
          let e ← get id
          changing fun t => t.registerMember e item).Ensures t (fun _ t' => (t'.element? id).isSome)
            fun _ _ => False := by
        refine ensures_forM (I := fun _ t' => (t'.element? id).isSome) (fun item _ t' hlive => ?_)
          (by rw [hid]; rfl)
        rw [ensures_get_bind]
        refine ⟨fun e' _ => ?_, fun hnone => by rw [hnone] at hlive; cases hlive⟩
        have hsame : (t'.registerMember e' item).element? id = t'.element? id :=
          element?_congr (by simp [registerMember]) id
        rw [ensures_changing, hsame]
        exact hlive
      exact hall.mono (fun _ _ _ _ => rfl) fun _ _ hf => hf.elim

theorem traceless_extend_iff (id : ElementId) (raws : List Value) :
    Traceless (extend id raws) t ↔ ∀ p, t.plan id none = .ok p → ∀ e, t.element? id = some e →
      ∀ r, e.content.extend raws = .ok r → t.Completes id p r.2 r.1 := by
  rw [extend, traceless_reading_bind]
  refine forall₂_congr fun p hp => traceless_get_bind.trans (forall₂_congr fun e he => ?_)
  refine traceless_ofExcept_bind.trans (forall₂_congr fun r hr => ?_)
  obtain ⟨items, content⟩ := r
  simp only
  rw [← bind_assoc, Completes]
  refine traceless_bind_iff (fun _ => by rw [he]; rfl) fun _ t' => ?_
  exact (ensures_registerMembers id items t').bind fun _ _ hlive => hlive

/-! ## Pliable trees -/

theorem completes_of_pliable (ht : t.Pliable) (hp : t.plan id none = .ok p)
    (he : t.element? id = some e) (hsame : e.content.SameFrame content)
    (hsoft : e.content.Soft → content.Soft) (items : List Value) :
    t.Completes id p content items := by
  rw [Completes, ensures_bind, ensures_update]
  refine ⟨fun _ _ => ?_, fun _ => rfl⟩
  have hs₁ : t.Softens (t.modifyElement id fun e => { e with content }) := by
    refine softens_modifyElement fun e' he' => ?_
    obtain rfl : e = e' := Option.some.inj (he.symm.trans he')
    exact ⟨Element.frame_of_content hsame, hsoft⟩
  have hrun : (runUnsets p.unsets).Ensures (t.modifyElement id fun e => { e with content })
      (fun _ t₂ => Softens _ t₂) fun _ _ => False :=
    ensures_runUnsets_of_mild fun _ hm => (ht.mild_of_planFrom hp hm).softens hs₁
  refine (hrun.mono (fun _ _ hs => hs) fun _ _ hf => hf.elim).bind fun _ t₂ hs₂ => ?_
  have hs := trans_of Softens hs₁ hs₂
  have hmarks : (markChanged p.marks).Ensures t₂ (fun _ _ => True) fun _ _ => False := by
    refine ensures_markChanged fun x hx => ?_
    obtain ⟨xe, hxe⟩ := exists_of_mem_marks hp hx
    rw [hs.toSameFrame.isSome, hxe]
    rfl
  refine (hmarks.and ((sameFrame_markChanged p.marks).ensures t₂)).mono (fun _ t₃ h₃ _ => ?_)
    fun _ _ hf => hf.1.elim
  rw [h₃.2.isSome, hs.toSameFrame.isSome, he]
  rfl

/-! ## Trees of a schema -/

theorem SameFrame.stale_iff {x : ElementId} (h : t.SameFrame t')
    (hp : t.plan x none = .ok p) (hp' : t'.plan x none = .ok p) : t'.Stale x ↔ t.Stale x := by
  have hnone : ∀ b, t'.element? b = none ↔ t.element? b = none := fun b => by
    rw [← Option.not_isSome_iff_eq_none, h.isSome b, Option.not_isSome_iff_eq_none]
  constructor
  · rintro ⟨p', b, hp'', hm, hb⟩
    obtain rfl : p = p' := Except.ok.inj (hp'.symm.trans hp'')
    exact ⟨p, b, hp, hm, (hnone b).1 hb⟩
  · rintro ⟨p', b, hp'', hm, hb⟩
    obtain rfl : p = p' := Except.ok.inj (hp.symm.trans hp'')
    exact ⟨p, b, hp', hm, (hnone b).2 hb⟩

/-- Another content of an element changes nothing about its plan, and where all choices are apart
that does not take the content away. -/
theorem Follows.of_content {schema : Blueprint} {node : ElementId → Schema}
    (h : t.Follows schema node) (hs : Sound t ∅) (ha : schema.root.Apart)
    (hp : t.plan id none = .ok p) (he : t.element? id = some e)
    (hsame : e.content.SameFrame content) : let t₁ := t.modifyElement id fun e => { e with content }
    t.SameFrame t₁ ∧ Sound t₁ ∅ ∧ t₁.Declared ∧ t₁.plan id none = .ok p ∧ t₁.Free p.unsets id := by
  intro t₁
  have hframe : t.SameFrame t₁ := by
    refine sameFrame_modifyElement fun e' he' => ?_
    obtain rfl : e = e' := Option.some.inj (he.symm.trans he')
    exact Element.frame_of_content hsame
  have hs₁ := hs.sameFrame hframe
  refine ⟨hframe, hs₁, h.declared.shrinks hframe.shrinks, ?_, fun c hm hu =>
    h.free_self hs ha he hp c hm (hframe.shrinks.under hu)⟩
  refine planFrom_of_bare hs₁ (hframe.retains.thins.bareTo id) ?_ (fun y hy => hy.elim) hp
  rw [element?_modifyElement_self he]
  rfl

/-- Where all choices are apart, a change of the items can be completed unless a hook leads to an
element that was removed. -/
theorem Follows.completes_iff {schema : Blueprint} {node : ElementId → Schema}
    (h : t.Follows schema node) (hs : Sound t ∅) (ha : schema.root.Apart)
    (hp : t.plan id none = .ok p) (he : t.element? id = some e)
    (hsame : e.content.SameFrame content) (hne : content ≠ e.content) (items : List Value) :
    t.Completes id p content items ↔ ¬ t.Stale id := by
  let t₁ := t.modifyElement id fun e => { e with content }
  have he₁ : t₁.element? id = some { e with content } := element?_modifyElement_self he
  obtain ⟨hframe, hs₁, hd₁, hp₁, hfree⟩ : t.SameFrame t₁ ∧ _ := h.of_content hs ha hp he hsame
  have hrun := ensures_runUnsets hs₁ hd₁ hp₁
  rw [hframe.stale_iff hp hp₁] at hrun
  rw [Completes, ensures_bind, ensures_update]
  constructor
  · intro hall hstale
    have hcommit := (hall.1 e he)
    rw [commit, ensures_bind] at hcommit
    have hran := ran_runUnsets hs₁ hd₁ ((frameStable_sound ∅).plan hs₁ hp₁)
    have hboth := (hcommit.and hrun).and hran
    unfold Ensures at hboth
    split at hboth
    · exact hboth.1.2.1 hstale
    · next t₂ _ =>
      obtain ⟨⟨rfl, -⟩, done, hsub, hran⟩ := hboth
      -- The element has the new content still, so that something has changed.
      have hself := hran.stays fun c hm => hfree c (hsub hm)
      rw [he₁, he] at hself
      exact hne (congrArg Element.content (Option.some.inj hself)).symm
  · intro hfresh
    refine ⟨fun _ _ => ?_, fun _ => rfl⟩
    refine (hrun.mono (fun _ _ hr => hr.2) fun _ _ hf => absurd hf hfresh).bind fun _ t₂ hran => ?_
    have hlive : (t₂.element? id).isSome := by
      rw [hran.stays hfree, he₁]
      rfl
    have hmarks := ensures_markChanged fun y hy => hran.isSome_of_mem_marks hs₁ hp₁ hlive hy
    refine (hmarks.and ((sameFrame_markChanged p.marks).ensures t₂)).mono (fun _ t₃ h₃ _ => ?_)
      fun _ _ hf => hf.1.elim
    rw [h₃.2.isSome, hlive]

/-- A change that every content it applies to takes as another one of the same frame can always be
completed exactly if it does not apply or no hook leads nowhere. -/
theorem Follows.completes_all_iff {β : Type} {schema : Blueprint} {node : ElementId → Schema}
    {change : Content → Except Error (β × Content)} (items : β → List Value)
    (h : t.Follows schema node) (hs : Sound t ∅) (ha : schema.root.Apart)
    (hchange : ∀ {e r}, t.element? id = some e → change e.content = .ok r →
      e.content.SameFrame r.2 ∧ r.2 ≠ e.content) :
    (∀ p, t.plan id none = .ok p → ∀ e, t.element? id = some e → ∀ r, change e.content = .ok r →
        t.Completes id p r.2 (items r.1)) ↔
      (t.Stale id → ∀ e, t.element? id = some e → ∀ r, change e.content ≠ .ok r) := by
  constructor
  · intro hall hstale e he r hr
    have ⟨p, _, hp, _⟩ := hstale
    obtain ⟨hsame, hne⟩ := hchange he hr
    exact (h.completes_iff hs ha hp he hsame hne _).1 (hall p hp e he r hr) hstale
  · intro hall p hp e he r hr
    obtain ⟨hsame, hne⟩ := hchange he hr
    exact (h.completes_iff hs ha hp he hsame hne _).2 fun hstale => hall hstale e he r hr

/-- **Atomic changes of items**: on a pliable tree every change of items that fails leaves the tree
as it was.  In a tree of a schema whose choices are apart it does so exactly if the content refuses
the change or no hook of the plan leads to an element that was removed; and on any tree whatever
exactly if the content refuses, or the plan can be completed once the items have changed. -/
theorem atomic_items (t : Tree) (id : ElementId) :
    (t.Pliable → (∀ op, Traceless (editItem id op) t) ∧ ∀ raws, Traceless (extend id raws) t) ∧
    (∀ {schema spec}, schema.root.Apart → spec.parent = none → Evolves schema spec t →
      (∀ op, Traceless (editItem id op) t ↔
        (t.Stale id → ∀ e, t.element? id = some e → ∀ r, e.content.edit op ≠ .ok r)) ∧
      ∀ raws, raws ≠ [] → (Traceless (extend id raws) t ↔
        (t.Stale id → ∀ e, t.element? id = some e → ∀ r, e.content.extend raws ≠ .ok r))) ∧
    (∀ op, Traceless (editItem id op) t ↔ ∀ p, t.plan id none = .ok p →
      ∀ e, t.element? id = some e →
      ∀ r, e.content.edit op = .ok r → t.Completes id p r.2 [r.1]) ∧
    ∀ raws, Traceless (extend id raws) t ↔ ∀ p, t.plan id none = .ok p →
      ∀ e, t.element? id = some e →
      ∀ r, e.content.extend raws = .ok r → t.Completes id p r.2 r.1 := by
  refine ⟨fun ht => ⟨fun op => ?_, fun raws => ?_⟩, fun {schema spec} ha hroot h => ?_,
    traceless_editItem_iff id, traceless_extend_iff id⟩
  · refine (traceless_editItem_iff id op).2 fun p hp e he r hr => ?_
    exact completes_of_pliable ht hp he (Content.sameFrame_of_edit hr) (Content.soft_of_edit hr) _
  · refine (traceless_extend_iff id raws).2 fun p hp e he r hr => ?_
    exact completes_of_pliable ht hp he (Content.sameFrame_of_extend hr)
      (Content.soft_of_extend hr) _
  · obtain ⟨hs, node, hf⟩ := schematic_of_evolves hroot h
    refine ⟨fun op => (traceless_editItem_iff id op).trans ?_,
      fun raws hraws => (traceless_extend_iff id raws).trans ?_⟩
    · refine hf.completes_all_iff (fun item => [item]) hs ha fun {e r} he hr => ?_
      obtain ⟨l, l', hl, hedit, hl'⟩ := hf.declared.exists_leafList_of_edit he hr
      refine ⟨Content.sameFrame_of_edit hr, ?_⟩
      rw [hl, hl']
      exact fun heq => LeafList.ne_of_edit hedit (Content.leafList.inj heq)
    · refine hf.completes_all_iff (fun items => items) hs ha fun {e r} he hr => ?_
      obtain ⟨l, l', hl, hextend, hl'⟩ := hf.declared.exists_leafList_of_extend he hr
      refine ⟨Content.sameFrame_of_extend hr, ?_⟩
      rw [hl, hl']
      exact fun heq => LeafList.ne_of_extend hraws hextend (Content.leafList.inj heq)

/-! ## Sessions -/

/-- Small numbers or a text. -/
def numbering : Blueprint :=
  .container
    [⟨"number", some ⟨"c", "a"⟩, .leafList ⟨[.uint8]⟩⟩, ⟨"other", some ⟨"c", "b"⟩, .leaf .string⟩]

/-- Two numbers and no text. -/
def counting : Tree :=
  let made := (Operation.instantiate numbering { name := "root", registers := true }).after {}
  let one := (Operation.editItem ⟨1⟩ (.append (.text "1")) trivial).after made
  (Operation.editItem ⟨1⟩ (.append (.text "2")) trivial).after one

theorem grows_counting : Grows numbering { name := "root", registers := true } counting := by
  have hmade : Grows numbering { name := "root", registers := true } _ := .refl
  have hone := hmade.andThen (.editItem ⟨1⟩ (.append (.text "1")) trivial) trivial
  exact hone.andThen (.editItem ⟨1⟩ (.append (.text "2")) trivial) trivial

/-- A number that is too large is refused, also together with others, and an item that is not
there cannot be removed; the two numbers stay. -/
theorem atomic_counting :
    ∃ err err' err'', (append ⟨1⟩ (.text "300")).on counting = (.error err, counting) ∧
      (extend ⟨1⟩ [.text "3", .text "300"]).on counting = (.error err', counting) ∧
      (remove ⟨1⟩ (.text "3")).on counting = (.error err'', counting) := by
  have hapart : numbering.root.Apart := by
    simp [numbering, Blueprint.declared, declareAll, declare, Schema.Apart, Schema.AllApart,
      Schema.MembersApart, Schema.choices]
  have hfresh := not_stale_of_grows rfl grows_counting ⟨1⟩
  have hall := (atomic_items counting ⟨1⟩).2.1 hapart rfl grows_counting.evolves
  have hfail : ∀ {α : Type} {x : Edit α}, Traceless x counting → (x.on counting).1.isOk = false →
      ∃ err, x.on counting = (.error err, counting) := by
    intro α x htraceless hno
    cases hon : x.on counting with
    | mk r t' =>
      cases r with
      | ok a => rw [hon] at hno; cases hno
      | error err => exact ⟨err, by rw [htraceless.of_error hon]⟩
  have hedit : ∀ op, Traceless (editItem ⟨1⟩ op) counting := fun op =>
    (hall.1 op).2 fun hstale => absurd hstale hfresh
  obtain ⟨err, herr⟩ := hfail (hedit (.append (.text "300"))) (by decide +kernel)
  obtain ⟨err', herr'⟩ := hfail ((hall.2 [.text "3", .text "300"] (by simp)).2 fun hstale =>
    absurd hstale hfresh) (by decide +kernel)
  obtain ⟨err'', herr''⟩ := hfail (hedit (.remove (.text "3"))) (by decide +kernel)
  exact ⟨err, err', err'', herr, herr', herr''⟩

/-- Numbers only: the text was removed. -/
def orphaned : Tree :=
  (Operation.removeSubtree ⟨2⟩).after
    ((Operation.instantiate numbering { name := "root" }).after {})

/-- A number that is not added because there is no text to be unset is there nevertheless. -/
theorem not_atomic_orphaned : ¬ ∀ t id op, Assembled t → Traceless (editItem id op) t := by
  intro hall
  have hassembled : Assembled orphaned :=
    .operate (.removeSubtree ⟨2⟩) (.operate (.instantiate numbering { name := "root" }) .empty)
  have htraceless := hall orphaned ⟨1⟩ (.append (.text "1")) hassembled
  have hfails : ((editItem ⟨1⟩ (.append (.text "1"))).on orphaned).1.isOk = false := by
    decide +kernel
  have hbefore : (orphaned.element? ⟨1⟩).any (·.content.holdsData) = false := by decide +kernel
  have hafter : (((editItem ⟨1⟩ (.append (.text "1"))).on orphaned).2.element? ⟨1⟩).any
      (·.content.holdsData) = true := by decide +kernel
  cases hon : (editItem ⟨1⟩ (.append (.text "1"))).on orphaned with
  | mk r t' =>
    cases r with
    | ok item => rw [hon] at hfails; cases hfails
    | error err =>
      rw [hon, htraceless.of_error hon, hbefore] at hafter
      cases hafter

end Tree

end DataTree
