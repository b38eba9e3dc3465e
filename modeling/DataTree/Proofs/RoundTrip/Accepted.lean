import DataTree.Proofs.RoundTrip.Hosting

/-!
# DataTree.Proofs.RoundTrip.Accepted

Which keys a list takes.

Without choices nothing has to make way for an entry.  So it can be added if its key is
new and has its parts, its default values can be built, and the types of the key leaves
accept the parts (`add_succeeds_iff`).  All of this is up to the list and its path, and
none of it to the rest of the tree.
-/

namespace DataTree

open Edit Outcome

/-! ## What can be built -/

mutual

/-- The default values of leaves are such as their types accept.  The entries of a list are built
when they are added. -/
def Schema.Buildable : Schema → Prop
  | .leaf type default => Tree.checkDefault type default = .ok ()
  | .leafList _ _ | .list _ _ => True
  | .container children _ => Schema.AllBuildable children

/-- The same for the children of a container or of an entry. -/
def Schema.AllBuildable : List (Child Schema) → Prop
  | [] => True
  | ⟨_, _, node⟩ :: rest => Schema.Buildable node ∧ Schema.AllBuildable rest

end

/-- The type of each key leaf accepts its part. -/
def ListSchema.AcceptsParts (s : ListSchema Schema) (pairs : List (String × String)) : Prop :=
  ∀ q ∈ pairs, ∃ type value, s.KeyType q.1 type ∧ type.construct (.text q.2) = .ok value

/-- The list at `path` can take an entry with this key. -/
def KeyedList.Accepts (l : KeyedList) (path key : String) : Prop :=
  key ∉ l.keys ∧ Schema.AllBuildable l.schema.entry ∧
    ∃ parts, l.schema.key.split path key = .ok parts ∧
      l.schema.AcceptsParts (l.schema.key.fields.zip parts)

theorem ListSchema.acceptsParts_cons {s : ListSchema Schema} {field part : String}
    {rest : List (String × String)} :
    s.AcceptsParts ((field, part) :: rest) ↔
      (∃ type value, s.KeyType field type ∧ type.construct (.text part) = .ok value) ∧
      s.AcceptsParts rest :=
  List.forall_mem_cons

namespace Tree

variable {t t₁ t' : Tree} {pending : Set ElementId} {id entry x : ElementId} {e : Element}
  {l : KeyedList} {key : String} {slot : LeafSlot} {p : Plan} {before : List (ElementId × Bool)}
  {s : ListSchema Schema} {pairs : List (String × String)}

/-- The default of a schema is what is left to check. -/
theorem checkDefault_withDefault {spec : ElementSpec} (h : spec.default = .empty) (type : LeafType)
    (default : Value) : checkDefault type (withDefault spec default).default =
      checkDefault type default := by
  unfold withDefault
  split
  · next hempty =>
    rw [h, checkDefault, checkDefault, if_pos (show Value.empty.isEmpty = true from rfl),
      if_pos hempty]
  · rfl

/-- With its parent there an element is made. -/
theorem ensures_wrap_of_parent {spec : ElementSpec} (content : Content) (h : t.HasParent spec) :
    (wrap content spec).Ensures t (fun id t' => (t'.element? id).isSome) fun _ _ => False := by
  rw [ensures_of_ok (on_wrap content h)]
  show ((t.made content spec).element? ⟨t.slots.size⟩).isSome = true
  rw [element?_made_self]
  rfl

mutual

/-- Where its parent is, a subtree is built if its schema can be. -/
theorem ensures_buildable :
    ∀ (schema : Schema) {t : Tree} {spec : ElementSpec}, spec.default = .empty →
    t.HasParent spec → (build schema spec).Ensures t (fun _ _ => schema.Buildable) fun _ _ =>
      ¬ schema.Buildable
  | .leaf type default, t, spec, hd, hp => by
    rw [build, ensures_ofExcept_bind, checkDefault_withDefault hd, Schema.Buildable]
    refine ⟨fun _ hok => ?_, fun err herr hok => by rw [hok] at herr; cases herr⟩
    refine (ensures_wrap_of_parent _ fun p hpar => hp p ?_).mono (fun _ _ _ => hok)
      fun _ _ hf => hf.elim
    exact parent_withDefault spec default ▸ hpar
  | .leafList type default, t, spec, _, hp => by
    rw [build, Schema.Buildable]
    refine (ensures_wrap_of_parent _ fun p hpar => hp p ?_).mono (fun _ _ _ => trivial)
      fun _ _ hf => hf.elim
    exact parent_withDefault spec default ▸ hpar
  | .list list default, t, spec, _, hp => by
    rw [build, Schema.Buildable]
    refine (ensures_wrap_of_parent _ fun p hpar => hp p ?_).mono (fun _ _ _ => trivial)
      fun _ _ hf => hf.elim
    exact parent_withDefault spec default ▸ hpar
  | .container children default, t, spec, _, hp => by
    rw [build, Schema.Buildable]
    refine ((ensures_wrap_of_parent _ fun p hpar => hp p ?_).mono (fun _ _ hd => hd) fun _ _ hf =>
      hf.elim).bind fun id t₁ h₁ => ?_
    · exact parent_withDefault spec default ▸ hpar
    have hstep : (orRemove id (populate id spec.registers children)).Ensures t₁
        (fun _ _ => Schema.AllBuildable children) fun _ _ => ¬ Schema.AllBuildable children := by
      rw [orRemove, ensures_tryCatch]
      refine (ensures_populatable spec.registers children h₁).mono (fun _ _ hd => hd)
        fun err t₂ hno => ?_
      exact ((ensures_true (removeSubtree id) t₂).mono (fun _ _ hd => hd) fun _ _ _ =>
        hno).bind fun _ _ _ => hno
    exact hstep.bind fun _ _ hd => hd

theorem ensures_populatable (registers : Bool) :
    ∀ (children : List (Child Schema)) {t : Tree} {id : ElementId},
    (t.element? id).isSome → (populate id registers children).Ensures t
      (fun _ _ => Schema.AllBuildable children) fun _ _ => ¬ Schema.AllBuildable children
  | [], t, id, _ => by
    rw [populate, Schema.AllBuildable]
    trivial
  | ⟨name, case, node⟩ :: rest, t, id, hid => by
    rw [populate, Schema.AllBuildable]
    obtain ⟨e, he⟩ := Option.isSome_iff_exists.1 hid
    let spec : ElementSpec := { name, parent := some id, registers, case }
    have hparent : t.HasParent spec := fun p hp => ⟨e, Option.some.inj hp ▸ he⟩
    have hnode := (ensures_buildable node (show spec.default = .empty from rfl) hparent).and
      (raised_build node spec t)
    refine (hnode.mono (fun _ _ hd => hd) fun _ _ hf hall => hf.1 hall.1).bind fun child t₁ h₁ => ?_
    obtain ⟨hb, hraised⟩ := h₁
    obtain ⟨e₁, he₁, -⟩ := hraised.grown.element he
    rw [ensures_bind, ensures_update_of he₁]
    refine (ensures_populatable registers rest ?_).mono (fun _ _ hd => ⟨hb, hd⟩)
      fun _ _ hf hall => hf hall.2
    rw [isSome_element?_modifyElement, he₁]
    rfl

end

/-! ## Assigning the key -/

/-- Without choices a leaf takes what its type accepts. -/
theorem ensures_setLeaf_of_plan (hfree : t.Choiceless) (hp : t.plan x none = .ok p)
    (he : t.element? x = some e) (hslot : e.content = .leaf slot)
    (hplain : slot.type.involvesReference = false) (raw : Value) :
    (setLeaf x raw).Ensures t
      (fun _ t' => (∃ value, slot.type.construct raw = .ok value) ∧ t.SameFrame t')
      fun _ _ => ∀ value, slot.type.construct raw ≠ .ok value := by
  have htype : leafType e = .ok slot.type := by
    rw [leafType, hslot]
  cases hvalue : slot.type.construct raw with
  | error err =>
    have hel : t.element x = .ok e := element_eq_ok_iff.2 he
    have hfail : (setLeaf x raw).on t = (.error err, t) := by
      simp only [setLeaf, on_bind, on_reading, assignFrom, hp, on_get, hel, on_ofExcept, htype,
        constructOn_eq hplain, hvalue]
    rw [ensures_of_error hfail]
    simp
  | ok value =>
    rw [Ensures, on_setLeaf hp he htype hplain hvalue, unsets_of_planFrom hfree hp]
    show (update x (store value) >>= fun _ => markChanged p.marks).Ensures t _ _
    rw [ensures_bind, ensures_update_of he]
    have hframe : t.SameFrame (t.modifyElement x (store value)) :=
      sameFrame_modifyElement fun e _ => frame_store value e
    have hlive : ∀ y ∈ p.marks, ((t.modifyElement x (store value)).element? y).isSome := by
      intro y hy
      obtain ⟨ye, hye⟩ := exists_of_mem_marks hp hy
      rw [isSome_element?_modifyElement, hye]
      rfl
    exact ((ensures_markChanged hlive).and ((sameFrame_markChanged p.marks).ensures _)).mono
      (fun _ _ hd => ⟨⟨value, rfl⟩, trans_of SameFrame hframe hd.2⟩) fun _ _ hf => hf.1.elim

/-- An entry that has just been built where there are no choices, with a leaf to assign to for every
field of its key. -/
structure Equipped (t : Tree) (s : ListSchema Schema) (id entry : ElementId)
    (before : List (ElementId × Bool)) : Prop extends Arrives t s id entry before where
  sound : Sound t {entry}
  free : t.Choiceless
  distinct : Schema.DistinctChildren s.entry
  sets : ∀ {ce}, t.element? entry = some ce → SetsAll ce s.entry
  list : (t.element? id).isSome

namespace Equipped

variable {ce : Element} {field owner : String} {leaf : ElementId} {type : LeafType}

/-- What is assigned to for a field is a leaf of the declared type, and the change can be
planned. -/
theorem exists_keyLeaf (h : t₁.Equipped s id entry before) (hf : t₁.SameFrame t)
    (hce : t.element? entry = some ce) (hleaf : setterFor ce owner field = .ok leaf) :
    ∃ le slot p, t.element? leaf = some le ∧ le.content = .leaf slot ∧
      s.KeyType field slot.type ∧ t.plan leaf none = .ok p := by
  obtain ⟨ce₁, hce₁, hpar₁, hkeys⟩ := h.element
  obtain ⟨ce', hce', hse⟩ := hf.shrinks.element hce
  obtain rfl : ce₁ = ce' := Option.some.inj (hce₁.symm.trans hce')
  have hget := mem_setters_of_setterFor hleaf
  rw [Element.setters_of_bare hse.bare] at hget
  obtain ⟨le₁, slot₁, default, hle₁, -, hslot₁, hdecl⟩ :=
    hkeys field leaf (Assoc.mem_of_get?_eq_some hget)
  obtain ⟨le, hle⟩ : ∃ le, t.element? leaf = some le := by
    rw [← Option.isSome_iff_exists, hf.isSome, hle₁]
    rfl
  obtain ⟨le', hle', hlse⟩ := hf.shrinks.element hle
  obtain rfl : le₁ = le' := Option.some.inj (hle₁.symm.trans hle')
  obtain ⟨value, hslot⟩ := Element.exists_leaf_of_bare hlse.bare hslot₁
  -- The entry is not yet in the list, but it has its parent there.
  have hparent : ∀ {y ye q}, y ∈ ({entry} : Set ElementId) → t.element? y = some ye →
      ye.parent = some q → (t.element? q).isSome := by
    intro y ye q hy hye hq
    obtain rfl := Set.mem_singleton_iff.1 hy
    obtain rfl : ce = ye := Option.some.inj (hce.symm.trans hye)
    obtain rfl : id = q :=
      Option.some.inj (hpar₁.symm.trans ((Element.parent_of_bare hse.bare).symm.trans hq))
    rw [hf.isSome]
    exact h.list
  have hhooked : t.Hooked := Choiceless.hooked (Choiceless.shrinks h.free hf.shrinks)
  obtain ⟨p, hp⟩ :=
    exists_planFrom (h.sound.sameFrame hf) hhooked hparent hle (Nat.lt_succ_self _) none
  exact ⟨le, _, p, hle, hslot, ⟨le₁.case, default, hdecl⟩, hp⟩

/-- Every leaf that is declared can be assigned to. -/
theorem exists_setter (h : t₁.Equipped s id entry before) (hf : t₁.SameFrame t)
    (hce : t.element? entry = some ce)
    (htype : s.KeyType field type) (owner : String) :
    ∃ leaf, setterFor ce owner field = .ok leaf := by
  obtain ⟨case, default, hdecl⟩ := htype
  obtain ⟨ce₁, hce₁, hse⟩ := hf.shrinks.element hce
  have hsome := h.sets hce₁ _ hdecl rfl
  rw [← Element.setters_of_bare hse.bare] at hsome
  obtain ⟨leaf, hget⟩ := Option.isSome_iff_exists.1 hsome
  exact ⟨leaf, by rw [setterFor, hget]⟩

/-- The key of a new entry is assigned if the types of its leaves accept the parts. -/
theorem ensures_assignKey (h : t₁.Equipped s id entry before)
    (hfields : ∀ q ∈ pairs, q.1 ∈ s.key.fields) (hf : t₁.SameFrame t) :
    (assignKey entry pairs).Ensures t (fun _ _ => s.AcceptsParts pairs) fun _ _ =>
      ¬ s.AcceptsParts pairs := by
  induction pairs generalizing t with
  | nil => exact fun q hq => by cases hq
  | cons q rest ih =>
    obtain ⟨field, part⟩ := q
    rw [ListSchema.acceptsParts_cons, assignKey, ensures_get_bind]
    refine ⟨fun ce hce => ?_, fun hnone => ?_⟩
    · rw [ensures_ofExcept_bind]
      refine ⟨fun leaf hleaf => ?_, fun err herr hacc => ?_⟩
      · obtain ⟨le, slot, p, hle, hslot, htype, hp⟩ := h.exists_keyLeaf hf hce hleaf
        have hplain := h.plain field (hfields _ List.mem_cons_self) _ htype
        have hone : (∃ type value, s.KeyType field type ∧ type.construct (.text part) = .ok value) ↔
            ∃ value, slot.type.construct (.text part) = .ok value := by
          constructor
          · rintro ⟨type, value, htype', hvalue⟩
            obtain rfl := htype'.unique h.distinct htype
            exact ⟨value, hvalue⟩
          · rintro ⟨value, hvalue⟩
            exact ⟨_, value, htype, hvalue⟩
        rw [hone]
        refine ((ensures_setLeaf_of_plan (Choiceless.shrinks h.free hf.shrinks) hp hle hslot hplain
          (.text part)).mono
          (fun _ _ hd => hd) fun _ _ hno hacc => ?_).bind fun _ t₂ h₂ => ?_
        · obtain ⟨value, hvalue⟩ := hacc.1
          exact hno value hvalue
        · exact (ih (fun q hq => hfields q (List.mem_cons_of_mem _ hq))
            (trans_of SameFrame hf h₂.2)).mono
            (fun _ _ hd => ⟨h₂.1, hd⟩) fun _ _ hno hacc => hno hacc.2
      · obtain ⟨type, value, htype, -⟩ := hacc.1
        obtain ⟨leaf, hleaf⟩ := h.exists_setter hf hce htype "list entry"
        rw [hleaf] at herr
        cases herr
    · obtain ⟨ce₁, hce₁, -⟩ := h.element
      have hlive := hf.isSome entry
      rw [hnone, hce₁] at hlive
      cases hlive

/-- Either the key is assigned, or the entry goes again. -/
theorem ensures_tryAssignKey (h : t.Equipped s id entry before)
    (hfields : ∀ q ∈ pairs, q.1 ∈ s.key.fields) :
    (tryAssignKey entry pairs before).Ensures t (fun _ _ => s.AcceptsParts pairs)
      fun _ _ => ¬ s.AcceptsParts pairs := by
  rw [tryAssignKey, ensures_tryCatch]
  refine (h.ensures_assignKey hfields (refl_of SameFrame t)).mono (fun _ _ hd => hd)
    fun err t₁ hno => ?_
  refine ((ensures_true (removeSubtree entry) t₁).mono (fun _ _ hd => hd) fun _ _ _ =>
    hno).bind fun _ t₂ _ => ?_
  exact ((ensures_true (restoreMarks before) t₂).mono (fun _ _ hd => hd) fun _ _ _ =>
    hno).bind fun _ _ _ => hno

end Equipped

/-! ## Adding -/

/-- Without choices nothing but the list decides about an entry. -/
theorem ensures_addEntry_accepts (h : t.Settled) (he : t.element? id = some e)
    (hl : e.content = .list l) (hkeyed : l.schema.key.isKeyless = false)
    (hplain : l.schema.PlainKeys) :
    (addEntry id (some key)).Ensures t (fun _ _ => l.Accepts e.path key) fun _ _ =>
      ¬ l.Accepts e.path key := by
  have hfree : t.Choiceless := h.mirrored.choiceless
  refine ensures_addEntry_of_stop (fun hstop _ hacc => ?_)
    fun {p e' l' key' parts path} hp he' hl' hkey => ?_
  · obtain ⟨hnew, -, parts, hsplit, -⟩ := hacc
    obtain ⟨p, hp⟩ := exists_plan h.sound hfree.hooked he
    exact hstop hp he hl ((entryKey_eq_ok_iff hkeyed).2 ⟨hnew, hsplit, rfl, rfl⟩)
  obtain rfl : e = e' := Option.some.inj (he.symm.trans he')
  obtain rfl := Content.list.inj (hl.symm.trans hl')
  obtain ⟨hnew, hsplit, rfl, rfl⟩ := (entryKey_eq_ok_iff hkeyed).1 hkey
  have hacc : l.Accepts e.path key' ↔
      Schema.AllBuildable l.schema.entry ∧
      l.schema.AcceptsParts (l.schema.key.fields.zip parts) := by
    simp only [KeyedList.Accepts, hnew, not_false_eq_true, true_and, hsplit, Except.ok.injEq,
      exists_eq_left']
  rw [hacc]
  have hbuildable := ensures_buildable (.container l.schema.entry .empty)
    (show (entrySpec id e (e.path ++ l.schema.key.predicate parts)).default = .empty from rfl)
    fun p hp => ⟨e, Option.some.inj hp ▸ he⟩
  rw [Schema.Buildable] at hbuildable
  have hbuild := ((((ensures_buildEntry h.sound he hl).and (raised_build _ _ t)).and
    (h.mirrored.ensures_buildEntry he hl _)).and hbuildable).and (ensures_filled h he
      hl hplain _ parts)
  refine hbuild.mono (fun entry t₁ h₁ => ?_) fun _ _ hf hacc => hf.1.2 hacc.1
  obtain ⟨⟨⟨⟨hent, hraised⟩, hm₁⟩, hb⟩, ⟨before, hbefore⟩, hfilled⟩ := h₁
  refine ⟨fun err herr => ?_, fun before hbefore => ?_⟩
  · rw [hbefore] at herr
    cases herr
  have hequipped : t₁.Equipped l.schema id entry before :=
    { toArrives := hraised.arrives rfl hplain hbefore
      sound := hent.sound
      free := hm₁.choiceless
      distinct := h.sound.distinct he hl
      sets := fun hce => by
        obtain ⟨ce, hce', -, -, -, hkeys⟩ := hraised.element
        obtain rfl := Option.some.inj (hce'.symm.trans hce)
        exact (hkeys _ _ rfl).2
      list := by
        rw [hent.list]
        rfl }
  have hfields : ∀ q ∈ l.schema.key.fields.zip parts, q.1 ∈ l.schema.key.fields :=
    fun q hq => (List.of_mem_zip hq).1
  have hassign := hequipped.ensures_tryAssignKey hfields
  refine ((hfilled before hbefore).and hassign).mono (fun _ t₂ h₂ => ?_)
    fun _ _ hf hacc => hf.2 hacc.2
  obtain ⟨hfilled₂, hparts⟩ := h₂
  refine ⟨fun hnone => ?_, fun e₂ _ => ?_⟩
  · obtain ⟨e₂, he₂⟩ := hfilled₂.toUnmoved.exists_element he
    rw [hnone] at he₂
    cases he₂
  · exact (hfilled₂.ensures_commit hfree hp l key').mono (fun _ _ _ => ⟨hb, hparts⟩)
      fun _ _ hf => hf.elim

/-- **What a list takes**: where there are no choices and key leaves have no references, adding
succeeds just if the list accepts the key. -/
theorem add_succeeds_iff (h : t.Settled) (he : t.element? id = some e) (hl : e.content = .list l)
    (hkeyed : l.schema.key.isKeyless = false) (hplain : l.schema.PlainKeys) :
    (∃ key' t', (add id (some key)).on t = (.ok key', t')) ↔ l.Accepts e.path key := by
  have hends : (add id (some key)).Ensures t (fun _ _ => l.Accepts e.path key)
      fun _ _ => ¬ l.Accepts e.path key := by
    refine ensures_add (fun hno => absurd hl (hno he)) fun {e' l'} _ _ => ?_
    have htold : (t.tell (.adding e'.path)).element? id = some e := he
    exact ensures_addEntry_accepts (h.tell _) htold hl hkeyed hplain
  constructor
  · rintro ⟨key', t', hok⟩
    exact hends.of_ok hok
  · intro hacc
    cases hr : (add id (some key)).on t with
    | mk r t' =>
      cases r with
      | ok key' => exact ⟨key', t', rfl⟩
      | error err => exact absurd hacc (hends.of_error hr)

end Tree

end DataTree
