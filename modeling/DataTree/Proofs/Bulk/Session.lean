import DataTree.Proofs.Bulk.Ignore

/-!
# DataTree.Proofs.Bulk.Session

Adding several items to a leaf-list at once, and one after another.

Both ways lead to the same tree (`on_appends_of_extend`).  In bulk the plan of the leaf-list
is carried out once and all items are registered then; one by one this is done for every
item.  But where no choice has the name of another one further up, the plan takes nothing of
the leaf-list, so that it does the same whatever items are in it, and from the second time
on it does nothing (`Follows.prepared_of_commit`).  Each step then adds and registers its item
and no more (`Prepared.on_append`).
-/

namespace DataTree

open Edit Outcome

namespace Tree

variable {t t' : Tree} {x : ElementId} {e : Element} {p : Plan} {l : LeafList} {raw v : Value}
  {raws items vs : List Value} {schema : Blueprint} {spec : ElementSpec} {node : ElementId → Schema}

/-! ## More items -/

/-- The tree with more items in the leaf-list `x`, registered on behalf of the element `e`. -/
def lengthened (t : Tree) (x : ElementId) (e : Element) (l : LeafList) (items : List Value) :
    Tree :=
  (items.foldl (fun t item => t.registerMember e item) t).withContent x
    (.leafList { l with items := l.items ++ items })

/-- Items are registered on behalf of what never changes about an element. -/
theorem registerMember_of_bare {e' : Element} (h : e'.bare = e.bare) (t : Tree) (item : Value) :
    t.registerMember e' item = t.registerMember e item := by
  rw [registerMember, registerMember, Element.memberPath, Element.memberPath, register, register,
    Element.registers_of_bare h, Element.path_of_bare h, Element.id_of_bare h]

theorem lengthened_of_bare {e' : Element} (h : e'.bare = e.bare) (t : Tree) (x : ElementId)
    (l : LeafList) (items : List Value) : t.lengthened x e' l items = t.lengthened x e l items := by
  have hstep : (fun (t : Tree) item => t.registerMember e' item) = fun t item =>
      t.registerMember e item :=
    funext fun t => funext (registerMember_of_bare h t)
  rw [lengthened, lengthened, hstep]

/-- Items after items. -/
theorem lengthened_lengthened (t : Tree) (x : ElementId) (e : Element) (l : LeafList)
    (items vs : List Value) :
    (t.lengthened x e l items).lengthened x e { l with items := l.items ++ items } vs
      = t.lengthened x e l (items ++ vs) := by
  simp only [lengthened, withContent_registerMembers, withContent_withContent, List.foldl_append,
    List.append_assoc]

/-! ## One plan -/

/-- Whatever items `x` holds, carrying out the plan leads from `t` to `t'` and leaves them. -/
def Commits (t : Tree) (x : ElementId) (p : Plan) (t' : Tree) : Prop :=
  ∀ l, (commit p).on (t.withContent x (.leafList l)) = (.ok (), t'.withContent x (.leafList l))

/-- Adding one. -/
theorem Commits.on_append (h : t.Commits x p t') (hp : t.plan x none = .ok p)
    (he : t.element? x = some e) (hl : e.content = .leafList l)
    (hx : ∃ e', t'.element? x = some e' ∧ e'.bare = e.bare) (hcheck : l.type.check raw = .ok v) :
    (append x raw).on t =
      (.ok v, t'.lengthened x e l [v]) := by
  obtain ⟨e', he', hb⟩ := hx
  have hcontent : e.content.edit (.append raw) =
      .ok (v, .leafList { l with items := l.items ++ [v] }) := by
    rw [hl, Content.edit, LeafList.edit, LeafList.append, hcheck]
    rfl
  have hnew := element?_modifyElement_self (f := fun e => { e with
    content := .leafList { l with items := l.items ++ [v] } }) he'
  have hcommit := h { l with items := l.items ++ [v] }
  have hel : t.element x = .ok e := element_eq_ok_iff.2 he
  have hnext : (t'.withContent x (.leafList { l with items := l.items ++ [v] })).element? x =
      some _ := hnew
  rw [append, editItem, on_reading_bind_of_ok hp]
  refine (on_reading_bind_of_ok hel).trans ((on_reading_bind_of_ok hcontent).trans ?_)
  refine (on_bind_of_ok (on_update_of_some he _)).trans ((on_bind_of_ok hcommit).trans ?_)
  refine (on_reading_bind_of_ok (element_eq_ok_iff.2 hnext)).trans ?_
  exact congrArg (Prod.mk _)
    ((withContent_registerMembers t' x _ e' [v]).trans (lengthened_of_bare hb t' x l [v]))

/-! ## One after another -/

/-- The plan of the leaf-list `x` was carried out: there is nothing left to do for it, and it
takes nothing of `x`, which is but for data and marks the element `e`. -/
structure Prepared (t : Tree) (x : ElementId) (e : Element) (p : Plan) : Prop where
  sound : Sound t ∅
  declared : t.Declared
  plan : t.plan x none = .ok p
  idle : t.Idle p
  free : t.Free p.unsets x
  element : ∃ e', t.element? x = some e' ∧ e'.bare = e.bare

theorem itemized_of_bare {e' : Element} (he : t.element? x = some e') (hb : e'.bare = e.bare)
    (hl : e.content = .leafList l) : t.Itemized x := by
  intro e₀ he₀
  obtain rfl : e' = e₀ := Option.some.inj (he.symm.trans he₀)
  have hbare := Element.content_of_bare hb
  rw [hl] at hbare
  cases hc : e'.content with
  | leafList l' => exact ⟨l', rfl⟩
  | _ =>
    rw [hc] at hbare
    simp [Content.bare] at hbare

theorem sameFrame_registerMembers (t : Tree) (e : Element) (items : List Value) :
    t.SameFrame (items.foldl (fun t item => t.registerMember e item) t) := by
  induction items generalizing t with
  | nil => exact refl_of SameFrame t
  | cons item items ih => exact trans_of SameFrame (sameFrame_register t e _ _) (ih _)

/-- More items change nothing but data. -/
theorem sameFrame_lengthened (hx : ∃ e', t.element? x = some e' ∧ e'.bare = e.bare)
    (hl : e.content = .leafList l) (items : List Value) :
    t.SameFrame (t.lengthened x e l items) := by
  obtain ⟨e', he', hb⟩ := hx
  refine trans_of SameFrame (sameFrame_registerMembers t e items)
    (sameFrame_modifyElement fun e₀ he₀ => ?_)
  rw [element?_congr (slots_foldl_registerMember e items t), he'] at he₀
  obtain rfl := Option.some.inj he₀
  obtain ⟨l', hl'⟩ := itemized_of_bare he' hb hl he'
  have hbare := Element.content_of_bare hb
  refine Element.frame_of_content ⟨?_, by rw [hl']; rfl⟩
  rw [hbare, hl]
  rfl

/-- With items added and registered, the plan is what it was, and there is still nothing to do. -/
theorem Prepared.lengthened (h : t.Prepared x e p) (hl : e.content = .leafList l)
    (items : List Value) :
    (t.lengthened x e l items).plan x none = .ok p ∧
      (t.lengthened x e l items).Commits x p (t.lengthened x e l items) := by
  obtain ⟨e', he', hb⟩ := h.element
  have hframe := sameFrame_lengthened h.element hl items
  refine ⟨?_, fun l' => ?_⟩
  · refine planFrom_of_bare (h.sound.sameFrame hframe) (hframe.retains.thins.bareTo x) ?_
      (fun _ hy => hy.elim) h.plan
    rw [hframe.isSome, he']
    rfl
  · -- What is registered does not concern the plan, nor what is in the leaf-list.
    have hreg := sameFrame_registerMembers t e items
    have hsound := h.sound.sameFrame hreg
    have hidle := h.idle.of_slots (slots_foldl_registerMember e items t)
    have hitems := (itemized_of_bare he' hb hl).shrinks hreg.shrinks
    have hgood := (frameStable_sound ∅).plan h.sound h.plan
    have hignores :=
      hitems.ignores_commit hgood (fun c hm hu => h.free c hm (hreg.shrinks.under hu)) l'
    rw [hidle.on_commit hsound (h.declared.shrinks hreg.shrinks)] at hignores
    rw [Tree.lengthened, withContent_withContent]
    exact hignores

/-- **Adding one more** adds it and registers it, and that is all. -/
theorem Prepared.on_append (h : t.Prepared x e p) (hl : e.content = .leafList l)
    (items : List Value) (hcheck : l.type.check raw = .ok v) :
    (append x raw).on (t.lengthened x e l items) = (.ok v, t.lengthened x e l (items ++ [v])) := by
  obtain ⟨e', he', hb⟩ := h.element
  obtain ⟨hplan, hcommits⟩ := h.lengthened hl items
  have hx : (t.lengthened x e l items).element? x
      = some { e' with content := .leafList { l with items := l.items ++ items } } := by
    rw [Tree.lengthened, withContent, element?_modifyElement_self (e := e')]
    rw [element?_congr (slots_foldl_registerMember e items t), he']
  have hbare : ({ e' with content := .leafList { l with items := l.items ++ items } } :
      Element).bare = e.bare := by
    rw [← hb, Element.bare, Element.bare, Element.content_of_bare hb, hl]
    rfl
  rw [hcommits.on_append hplan hx rfl ⟨_, hx, rfl⟩ hcheck, lengthened_of_bare hbare,
    lengthened_lengthened]

/-- Adding more, one after another. -/
theorem Prepared.on_appends (h : t.Prepared x e p) (hl : e.content = .leafList l)
    (items : List Value) (hcheck : l.type.checkAll raws = .ok vs) :
    (raws.mapM (append x)).on (t.lengthened x e l items) =
      (.ok vs, t.lengthened x e l (items ++ vs)) := by
  have hall := mapM_eq_ok.1 hcheck
  clear hcheck
  induction hall generalizing items with
  | nil => rw [List.append_nil]; rfl
  | @cons raw v raws vs hv _ ih =>
    rw [List.mapM_cons, on_bind_of_ok (h.on_append hl items hv), on_bind_of_ok (ih (items ++ [v])),
      List.append_assoc]
    rfl

/-! ## In a session -/

/-- Where all choices are apart, carrying out the plan of a leaf-list is the same whatever items it
holds, and prepares it for more. -/
theorem Follows.prepared_of_commit (hf : t.Follows schema node) (hs : Sound t ∅)
    (ha : schema.root.Apart) (hx : t.element? x = some e) (hl : e.content = .leafList l)
    (hp : t.plan x none = .ok p) {l' : LeafList}
    (h : (commit p).on (t.withContent x (.leafList l')) = (.ok (), t')) :
    ∃ t₁, t.Commits x p t₁ ∧ t₁.Prepared x e p := by
  have hgood := (frameStable_sound ∅).plan hs hp
  have hfree := hf.free_self hs ha hx hp
  have hignores := (itemized_of_bare hx rfl hl).ignores_commit hgood hfree
  rw [hignores l'] at h
  have hok : ((commit p).on t).1 = .ok () := congrArg Prod.fst h
  have hon : (commit p).on t = (.ok (), ((commit p).on t).2) := Prod.ext hok rfl
  obtain ⟨hs₁, hshrinks, hidle⟩ := hf.idle_of_commit hs ha hx hp hon
  refine ⟨((commit p).on t).2, fun l₁ => by rw [hignores l₁, hok], hs₁,
    hf.declared.shrinks hshrinks, ?_, hidle, fun c hm hu => hfree c hm (hshrinks.under hu), ?_⟩
  all_goals
    obtain ⟨e₁, he₁, hc₁⟩ := hidle.marked x (mem_marks_of_planFrom hp)
    obtain ⟨e₀, he₀, hse⟩ := hshrinks.element he₁
    obtain rfl : e = e₀ := Option.some.inj (hx.symm.trans he₀)
  · exact planFrom_of_bare hs₁ (hshrinks.thins.bareTo x) (by rw [he₁]; rfl) (fun _ hy => hy.elim) hp
  · exact ⟨e₁, he₁, hse.bare⟩

/-- A value that is not accepted lets nothing happen. -/
theorem on_extend_of_rejected (he : t.element? x = some e) (hl : e.content = .leafList l)
    (hraw : raw ∈ raws) (hcheck : ∀ v, l.type.check raw ≠ .ok v) :
    ∃ err, (extend x raws).on t = (.error err, t) := by
  have hextend : ∃ err, e.content.extend raws = .error err := by
    cases hall : l.type.checkAll raws with
    | ok vs =>
      obtain ⟨v, -, hv⟩ := exists_mem_of_mapM hall hraw
      exact absurd hv (hcheck v)
    | error err =>
      refine ⟨err, ?_⟩
      rw [hl, Content.extend, LeafList.extend, hall]
      rfl
  obtain ⟨err, herr⟩ := hextend
  rw [extend, on_bind, on_reading]
  cases t.plan x none with
  | error err => exact ⟨err, rfl⟩
  | ok p =>
    refine ⟨err, (on_reading_bind_of_ok (element_eq_ok_iff.2 he)).trans ?_⟩
    rw [on_bind, on_ofExcept, herr]

/-- **Adding in bulk is adding one by one**: if several items can be added to a leaf-list at once,
then adding them one after another succeeds at every step, gives the same items, and ends in the
very same tree; and if one of them is not accepted, adding them at once changes nothing. -/
theorem on_appends_of_extend (ha : schema.root.Apart) (hroot : spec.parent = none)
    (h : Evolves schema spec t) (hx : t.held x = some (.leafList l)) (hne : raws ≠ []) :
    (∀ items t', (extend x raws).on t = (.ok items, t') →
      (raws.mapM (append x)).on t = (.ok items, t')) ∧
      ∀ raw ∈ raws, (∀ v, l.type.check raw ≠ .ok v) →
        ∃ err, (extend x raws).on t = (.error err, t) := by
  obtain ⟨hs, node, hf⟩ := schematic_of_evolves hroot h
  obtain ⟨e, he, hl⟩ := held_eq_some_iff.1 hx
  refine ⟨fun items t' hon => ?_, fun raw hraw => on_extend_of_rejected he hl hraw⟩
  have hends : (extend x raws).Ensures t
      (fun items t' => (raws.mapM (append x)).on t = (.ok items, t')) fun _ _ => True := by
    refine ensures_extend (fun _ => trivial) fun {p e' items content} hp he' hcontent => ?_
    obtain rfl : e = e' := Option.some.inj (he.symm.trans he')
    rw [hl, Content.extend, map_eq_ok] at hcontent
    obtain ⟨⟨items', l'⟩, hextend, hcontent⟩ := hcontent
    obtain ⟨rfl, rfl⟩ := Prod.mk.inj hcontent
    obtain ⟨vs, hcheck, hextend⟩ := bind_eq_ok.1 hextend
    obtain ⟨rfl, rfl⟩ := Prod.mk.inj (pure_eq_ok.1 hextend)
    refine (ensures_on _ _).mono (fun _ t₂ hcommit => ?_) fun _ _ _ => trivial
    obtain ⟨t₁, hcommits, hprepared⟩ := hf.prepared_of_commit hs ha he hl hp hcommit
    obtain ⟨e₁, he₁, hb₁⟩ := hprepared.element
    have ht₂ : t₂ = t₁.withContent x (.leafList { l with items := l.items ++ vs }) :=
      congrArg Prod.snd (hcommit.symm.trans (hcommits _))
    have hx₂ : t₂.element? x =
        some { e₁ with content := .leafList { l with items := l.items ++ vs } } := by
      rw [ht₂, withContent, element?_modifyElement_self he₁]
    refine ⟨fun e₂ he₂ => ?_, fun hnone => by rw [hx₂] at hnone; cases hnone⟩
    obtain rfl := Option.some.inj (hx₂.symm.trans he₂)
    -- The first step is taken from the tree itself, all others where the plan was carried out.
    cases raws with
    | nil => exact absurd rfl hne
    | cons raw raws =>
      obtain ⟨v, vs', hv, hvs, rfl⟩ : ∃ v vs', l.type.check raw = .ok v ∧
          l.type.checkAll raws = .ok vs' ∧ vs = v :: vs' := by
        cases mapM_eq_ok.1 hcheck with
        | cons hv hvs => exact ⟨_, _, hv, mapM_eq_ok.2 hvs, rfl⟩
      rw [List.mapM_cons, on_bind_of_ok (hcommits.on_append hp he hl hprepared.element hv),
        on_bind_of_ok (hprepared.on_appends hl [v] hvs)]
      refine congrArg (Prod.mk _) ?_
      rw [ht₂, withContent_registerMembers]
      exact (lengthened_of_bare hb₁ t₁ x l (v :: vs')).symm
  exact hends.of_ok hon

/-- A firewall opens the ports that are listed, or all of them. -/
def firewall : Blueprint :=
  .container
    [⟨"port", some ⟨"open", "some"⟩, .leafList ⟨[.int {}]⟩⟩,
      ⟨"any", some ⟨"open", "all"⟩, .leaf .bool⟩]

/-- All ports are open. -/
def openAll : Tree :=
  (Operation.setLeaf ⟨2⟩ (.bool true)).after
    ((Operation.instantiate firewall { name := "root", registers := true }).after {})

theorem evolves_openAll : Evolves firewall { name := "root", registers := true } openAll :=
  Reaches.andThen .refl (.setLeaf ⟨2⟩ (.bool true)) trivial

/-- The same port twice, in two forms, displaces the other case; a name is no port. -/
theorem on_appends_openAll :
    ∃ items t', (extend ⟨1⟩ [.text " 80", .int 80]).on openAll = (.ok items, t') ∧
      ([Value.text " 80", .int 80].mapM (append ⟨1⟩)).on openAll = (.ok items, t') ∧
      ¬ t'.Laden ⟨2⟩ ∧
      ∃ err, (extend ⟨1⟩ [.int 80, .text "ssh"]).on openAll = (.error err, openAll) := by
  have hapart : firewall.root.Apart := by
    simp [firewall, Blueprint.declared, declareAll, declare, Schema.Apart, Schema.AllApart,
      Schema.MembersApart, Schema.choices]
  have hheld : ∃ e, openAll.element? ⟨1⟩ = some e ∧ e.content = .leafList ⟨⟨[.int {}]⟩, []⟩ :=
    ⟨_, rfl, rfl⟩
  have hx : openAll.held ⟨1⟩ = some (.leafList ⟨⟨[.int {}]⟩, []⟩) := held_eq_some_iff.2 hheld
  have hok : ((extend ⟨1⟩ [.text " 80", .int 80]).on openAll).1.isOk = true := by decide +kernel
  obtain ⟨items, t', hon⟩ := exists_ok_of_isOk hok
  have ht' : t' = ((extend ⟨1⟩ [.text " 80", .int 80]).on openAll).2 := by rw [hon]
  have hbulk := fun (raws : List Value) (hne : raws ≠ []) =>
    on_appends_of_extend hapart rfl evolves_openAll hx hne
  refine ⟨items, t', hon, (hbulk _ (by simp)).1 items t' hon, ?_, ?_⟩
  · rw [laden_iff, ht']
    decide +kernel
  · refine (hbulk _ (by simp)).2 (.text "ssh") (by simp) fun v hv => ?_
    have hno : (LeafListType.check ⟨[.int {}]⟩ (.text "ssh")).isOk = false := by decide +kernel
    rw [hv] at hno
    cases hno

end Tree

end DataTree
