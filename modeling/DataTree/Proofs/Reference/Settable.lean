import DataTree.Proofs.RoundTrip.Nested
import DataTree.Proofs.Schema.Nodes

/-!
# DataTree.Proofs.Reference.Settable

Every leaf can be assigned to through its parent.

A value that is written through a reference does not go to the leaf that was found, but
to the one that the parent assigns to under a name.  These are the same leaf if that is
its own name (`assignable_of_evolves`): building enters every leaf into the hooks of its
container, and as names that are declared side by side differ, no other child takes
its place.
-/

namespace DataTree.Tree

open Edit Outcome

variable {t t' t₁ t₂ : Tree} {id c x y : ElementId} {e xe ye : Element} {schema : Schema}
  {spec : ElementSpec} {pending : Set ElementId}

/-- A leaf is marked as one, and its parent assigns to it under its name. -/
structure Settable (t : Tree) (c : ElementId) : Prop where
  isLeaf : ∀ {e slot}, t.element? c = some e → e.content = .leaf slot → e.isLeaf = true
  setter : ∀ {e slot p pe}, t.element? c = some e → e.content = .leaf slot → e.parent = some p →
    t.element? p = some pe → Assoc.get? e.name pe.setters = some c

/-- It depends on the leaf and its parent only, and not on data and links. -/
theorem Settable.congr (h : t.Settable c)
    (hself : ∀ {e'}, t'.element? c = some e' → ∃ e, t.element? c = some e ∧ e'.bare = e.bare)
    (hparent : ∀ {e' p pe'}, t'.element? c = some e' → e'.parent = some p →
      t'.element? p = some pe' →
      ∃ pe, t.element? p = some pe ∧ pe'.bare = pe.bare) : t'.Settable c := by
  constructor
  case isLeaf =>
    intro e' slot he' hslot
    obtain ⟨e, he, hb⟩ := hself he'
    obtain ⟨_, hslot'⟩ := Element.exists_leaf_of_bare hb.symm hslot
    rw [Element.isLeaf_of_bare hb, h.isLeaf he hslot']
  case setter =>
    intro e' slot p pe' he' hslot hp hpe'
    obtain ⟨e, he, hb⟩ := hself he'
    obtain ⟨pe, hpe, hpb⟩ := hparent he' hp hpe'
    obtain ⟨_, hslot'⟩ := Element.exists_leaf_of_bare hb.symm hslot
    rw [Element.name_of_bare hb, Element.setters_of_bare hpb]
    exact h.setter he hslot' (Element.parent_of_bare hb ▸ hp) hpe

theorem Settable.shrinks (h : t.Settable c) (hs : t.Shrinks t') : t'.Settable c := by
  have hback : ∀ {x e'}, t'.element? x = some e' →
      ∃ e, t.element? x = some e ∧ e'.bare = e.bare := by
    intro x e' he'
    obtain ⟨e, he, hse⟩ := hs.element he'
    exact ⟨e, he, hse.bare⟩
  exact h.congr hback fun _ _ => hback

/-! ## Building -/

/-- A subtree was built: but for its root every leaf can be assigned to through its parent, and
if the root is a leaf then its node describes one. -/
structure Equips (schema : Schema) (id : ElementId) (t : Tree) : Prop where
  others : ∀ x, x ≠ id → t.Settable x
  root : ∀ {e slot}, t.element? id = some e → e.content = .leaf slot → e.isLeaf = true ∧
    schema.isLeaf = true

/-- Making an element concerns no other one. -/
theorem settable_wrap (content : Content) (hs : Sound t pending) (hparent : t.HasParent spec)
    (h : ∀ x, t.Settable x) : (wrap content spec).Ensures t
      (fun id t' => t'.element? id = some (t.newElement content spec) ∧ ∀ x, x ≠ id → t'.Settable x)
      fun _ _ => False := by
  rw [ensures_of_ok (on_wrap content hparent)]
  refine ⟨element?_made_self, fun x hx => ?_⟩
  have hback : ∀ {y e'}, y ≠ ⟨t.slots.size⟩ →
      ((t.link spec).place (t.newElement content spec)).element? y = some e' →
      ∃ e, t.element? y = some e ∧ e'.bare = e.bare := by
    intro y e' hy he'
    obtain ⟨hnew, -⟩ | ⟨e, he, htrunk, -⟩ := made_cases he'
    · exact absurd hnew hy
    · exact ⟨e, he, (congrArg Element.bare htrunk :)⟩
  refine (h x).congr (hback hx) fun he' hp => hback ?_
  obtain ⟨e, he, hb⟩ := hback hx he'
  rintro rfl
  have hlt := hs.parent_lt he (Element.parent_of_bare hb ▸ hp)
  exact absurd (index_lt_of_element? he) (Nat.not_lt.2 (Nat.le_of_lt hlt))

/-- Two children of a container that have the same name are the same. -/
theorem Sound.eq_of_name_eq (h : Sound t pending) (he : t.element? id = some e)
    (hc : e.content = .container) (hpend : ∀ x ∈ pending, x.index ≤ id.index)
    (hx : t.element? x = some xe) (hxp : xe.parent = some id) (hy : t.element? y = some ye)
    (hyp : ye.parent = some id) (hname : xe.name = ye.name) : x = y := by
  have hmem : ∀ {x xe}, t.element? x = some xe → xe.parent = some id →
      (xe.name, x) ∈ e.children := by
    intro x xe hx hxp
    have hlt := h.parent_lt hx hxp
    have habove := h.listed hx hxp fun hm => absurd (hpend x hm) (Nat.not_le.2 hlt)
    obtain ⟨e', he', hbelow⟩ := habove
    obtain rfl : e = e' := Option.some.inj (he.symm.trans he')
    simp only [Element.below, hc, Content.entries, List.append_nil, List.mem_map] at hbelow
    obtain ⟨⟨name, x'⟩, hm, rfl⟩ := hbelow
    obtain ⟨-, -, ce, hce, -, hcname, -⟩ := h.child he hm
    obtain rfl : xe = ce := Option.some.inj (hx.symm.trans hce)
    rw [hcname]
    exact hm
  have heq := List.inj_on_of_nodup_map (h.names he) (hmem hx hxp) (hmem hy hyp) hname
  exact congrArg Prod.snd heq

/-- When a new child has got its hooks, it too can be assigned to through its container. -/
theorem Equips.addField {node : Schema} {name : String} {case : Option Case}
    (h : t.Equips node c) (hc : t.element? c = some xe) (hname : xe.name = name)
    (hpar : xe.parent = some id) (hpend : ∀ x ∈ pending, x.index ≤ id.index)
    (hs : Sound (t.modifyElement id (Tree.addField name case node.isLeaf c)) pending)
    (he : (t.modifyElement id (Tree.addField name case node.isLeaf c)).element? id = some e)
    (hcont : e.content = .container) (x : ElementId) :
    (t.modifyElement id (Tree.addField name case node.isLeaf c)).Settable x := by
  have hci : c ≠ id := by
    rintro rfl
    obtain ⟨e₁, he₁, hcore, -⟩ := addField_cases he
    obtain rfl : xe = e₁ := Option.some.inj (hc.symm.trans he₁)
    exact Nat.lt_irrefl _ (hs.parent_lt he ((Element.parent_of_core hcore).trans hpar))
  have hc₂ : (t.modifyElement id (Tree.addField name case node.isLeaf c)).element? c = some xe := by
    rw [element?_modifyElement_of_ne hci, hc]
  by_cases hxc : x = c
  · subst hxc
    refine ⟨fun he₂ hslot => ?_, fun {e₂ slot p pe} he₂ hslot hp hpe => ?_⟩
    · obtain rfl : xe = _ := Option.some.inj (hc₂.symm.trans he₂)
      exact (h.root hc hslot).1
    · obtain rfl : xe = e₂ := Option.some.inj (hc₂.symm.trans he₂)
      obtain rfl : id = p := Option.some.inj (hpar.symm.trans hp)
      obtain ⟨pe₁, -, -, ⟨-, rfl⟩ | ⟨hne, -⟩⟩ := addField_cases hpe
      · simp only [Tree.addField, (h.root hc hslot).2, if_true, hname, Assoc.get?_insert_self]
      · exact absurd rfl hne
  · have hother := h.others x hxc
    refine ⟨fun {e₂ slot} he₂ hslot => ?_, fun {e₂ slot p pe} he₂ hslot hp hpe => ?_⟩
    · obtain ⟨e₁, he₁, hcore, -⟩ := addField_cases he₂
      rw [Element.isLeaf_of_core hcore, hother.isLeaf he₁ (Element.content_of_core hcore ▸ hslot)]
    · obtain ⟨e₁, he₁, hcore, -⟩ := addField_cases he₂
      obtain ⟨pe₁, hpe₁, -, hpe₂⟩ := addField_cases hpe
      have hget := hother.setter he₁ (Element.content_of_core hcore ▸ hslot)
        (Element.parent_of_core hcore ▸ hp) hpe₁
      have hname₁ := Element.name_of_core hcore
      rw [hname₁]
      obtain ⟨rfl, rfl⟩ | ⟨-, rfl⟩ := hpe₂
      · simp only [Tree.addField]
        split
        · -- No other child of the container has the name of the new one.
          rw [Assoc.get?_insert_of_ne, hget]
          intro heq
          exact hxc (hs.eq_of_name_eq he hcont hpend he₂ hp hc₂ hpar (by rw [hname₁, heq, hname]))
        · exact hget
      · exact hget

mutual

/-- Building leaves no leaf that cannot be assigned to through its parent. -/
theorem settable_build : ∀ (schema : Schema), schema.Distinct →
    ∀ {t : Tree} {pending : Set ElementId} {spec : ElementSpec}, Sound t pending → t.Fits spec →
      (∀ x, t.Settable x) → (build schema spec).Ensures t (fun id t' => t'.Equips schema id)
        fun _ t' => ∀ x, t'.Settable x
  | .leaf type default, _, t, pending, spec, hs, hfit, h => by
    rw [build, ensures_ofExcept_bind]
    refine ⟨fun _ _ => ?_, fun _ _ => h⟩
    refine (settable_wrap (.leaf { type }) hs
      (fun p hp => hfit.hasParent p (by simpa using hp)) h).mono
      (fun id t' hd => ⟨hd.2, fun he _ => ?_⟩) fun _ _ hf => hf.elim
    rw [hd.1] at he
    rw [← Option.some.inj he]
    exact ⟨rfl, rfl⟩
  | .leafList type default, _, t, pending, spec, hs, hfit, h => by
    rw [build]
    refine (settable_wrap (.leafList { type }) hs
      (fun p hp => hfit.hasParent p (by simpa using hp)) h).mono
      (fun id t' hd => ⟨hd.2, fun he hslot => ?_⟩) fun _ _ hf => hf.elim
    rw [hd.1] at he
    rw [← Option.some.inj he] at hslot
    cases hslot
  | .list list default, _, t, pending, spec, hs, hfit, h => by
    rw [build]
    refine (settable_wrap (.list { schema := list }) hs
      (fun p hp => hfit.hasParent p (by simpa using hp)) h).mono
      (fun id t' hd => ⟨hd.2, fun he hslot => ?_⟩) fun _ _ hf => hf.elim
    rw [hd.1] at he
    rw [← Option.some.inj he] at hslot
    cases hslot
  | .container children default, hd, t, pending, spec, hs, hfit, h => by
    rw [Schema.distinct_container] at hd
    rw [build]
    have hfit' : t.Fits { withDefault spec default with isContainer := true } :=
      hfit.congr (by simp) (by simp) (by simp)
    have hwrap :=
      (ensures_wrap .container hs hfit' (.of_isInitial trivial fun hl => by cases hl)).and
      (settable_wrap .container hs hfit'.hasParent h)
    refine (hwrap.mono (fun _ _ hd => hd) fun _ _ hf => hf.1.elim).bind fun id t₁ h₁ => ?_
    obtain ⟨⟨hb, he⟩, -, hothers⟩ := h₁
    obtain ⟨e, hc, hchildren, he⟩ : ∃ e, e.content = .container ∧ e.children = [] ∧
        t₁.element? id = some e := ⟨_, rfl, rfl, he⟩
    have hpend : ∀ x ∈ pending ∪ t.pendingFor { withDefault spec default with isContainer := true },
        x.index ≤ id.index := by
      rw [hb.id_eq]
      intro x hx
      obtain hx | hx := hx
      · exact Nat.le_of_lt (hs.index_lt_of_mem hx)
      · rw [hx.1]
    have h₁ : ∀ x, t₁.Settable x := by
      intro x
      by_cases hx : x = id
      · have hno : ∀ {e' slot}, t₁.element? x = some e' →
            e'.content ≠ .leaf slot := fun he' hslot => by
          obtain rfl := Option.some.inj (he.symm.trans (hx ▸ he'))
          rw [hc] at hslot
          cases hslot
        exact ⟨fun he' hslot => absurd hslot (hno he'), fun he' hslot => absurd hslot (hno he')⟩
      · exact hothers x hx
    have hfresh : ∀ c ∈ children, c.name ∉ Assoc.keys e.children := by simp [hchildren, Assoc.keys]
    have hpop :=
      (ensures_populate spec.registers children hd.2 hd.1 hb.sound he hc hfresh hb.rooted).and
      (settable_populate spec.registers children hd.2 hd.1 hb.sound hpend he hc hfresh hb.rooted h₁)
    refine Ensures.bind (I := fun _ t₂ => t₂.Equips (.container children default) id)
      ?_ fun _ _ hd => hd
    rw [orRemove, ensures_tryCatch]
    refine hpop.mono (fun _ t₂ h₂ => ⟨fun x _ => h₂.2 x, fun he₂ hslot => ?_⟩) fun err t₂ h₂ => ?_
    · obtain ⟨e', he', -, -, -, hcont⟩ := h₂.1.element
      obtain rfl := Option.some.inj (he'.symm.trans he₂)
      rw [hcont, hc] at hslot
      cases hslot
    · refine ((shrinks_removeSubtree id).ensures t₂ |>.mono (fun _ _ hs => hs)
        fun _ t₃ hs x => ?_).bind fun _ t₃ hs x => ?_
      · exact (h₂.2 x).shrinks hs
      · exact (h₂.2 x).shrinks hs

theorem settable_populate (registers : Bool) :
    ∀ (children : List (Child Schema)), Schema.AllDistinct children →
    (children.map Child.name).Nodup →
    ∀ {t : Tree} {pending : Set ElementId} {id : ElementId} {e : Element},
      Sound t pending → (∀ x ∈ pending, x.index ≤ id.index) → t.element? id = some e →
      e.content = .container →
      (∀ c ∈ children, c.name ∉ Assoc.keys e.children) → t.Rooted id → (∀ x, t.Settable x) →
      (populate id registers children).Ensures t (fun _ t' => ∀ x, t'.Settable x) fun _ t' =>
        ∀ x, t'.Settable x
  | [], _, _, t, pending, id, e, _, _, _, _, _, _, h => by
    rw [populate]
    exact h
  | ⟨name, case, node⟩ :: rest, hd, hn, t, pending, id, e, hs, hpend, he, hc, hnew, hr, h => by
    rw [Schema.AllDistinct] at hd
    rw [List.map_cons, List.nodup_cons] at hn
    have hname : name ∉ Assoc.keys e.children := hnew ⟨name, case, node⟩ List.mem_cons_self
    have hfit := fits_child registers case he hname
    rw [populate]
    refine (((ensures_build node hd.1 hs hfit).and (settable_build node hd.1 hs hfit h)).mono
      (fun _ _ hb => hb) fun _ _ hf => hf.2).bind fun child t₁ h₁ => ?_
    obtain ⟨hb, hequips⟩ := h₁
    obtain ⟨ce, hce, hcname, hcpar, -⟩ := hb.element
    obtain ⟨e₂, he₂, hkeys, hp⟩ := hb.addField case node.isLeaf he hc hname hr
    obtain ⟨e', he', -, -, -, hc₂⟩ := hp.element
    obtain rfl : e₂ = e' := Option.some.inj (he₂.symm.trans he')
    have h₂ : ∀ x, (t₁.modifyElement id (Tree.addField name case node.isLeaf child)).Settable x :=
      hequips.addField hce hcname hcpar hpend hp.sound he₂ (hc₂.trans hc)
    obtain ⟨e₁, he₁, -⟩ := modifyElement_cases he₂
    rw [ensures_bind, ensures_update_of he₁]
    exact settable_populate registers rest hd.2 hn.2 hp.sound hpend he₂ (hc₂.trans hc)
      (fresh_rest hn.1 hnew hkeys) hp.rooted h₂

end

/-! ## Sessions -/

/-- All leaves can be assigned to through their parents, and the first slot is the root of
everything. -/
structure Assignable (t : Tree) : Prop where
  settable : ∀ x, t.Settable x
  rooted : t.Rooted ⟨0⟩

theorem Assignable.shrinks (h : t.Assignable) (hs : t.Shrinks t') : t'.Assignable :=
  ⟨fun x => (h.settable x).shrinks hs, Rooted.shrinks h.rooted hs⟩

/-- A leaf that is not the only element has a parent, through which it can be assigned to. -/
theorem Assignable.exists_parent (h : t.Assignable) (hs : Sound t ∅) {slot : LeafSlot}
    (hc : t.element? c = some e)
    (hslot : e.content = .leaf slot) (hx : t.element? x = some xe) (hne : x ≠ c) :
    ∃ p pe, e.parent = some p ∧ t.element? p = some pe ∧ Assoc.get? e.name pe.setters = some c := by
  cases hp : e.parent with
  | none =>
    -- Then it is the root of everything, but nothing is below a leaf.
    have hzero : c = ⟨0⟩ := by
      by_contra hne
      have hlt : 0 < c.index := Nat.pos_of_ne_zero fun hi => hne (congrArg ElementId.mk hi)
      obtain ⟨p, hpar, -⟩ := h.rooted hc hlt
      rw [hp] at hpar
      cases hpar
    have hbelow : e.below = [] := by
      rw [Element.below, hs.children_eq_nil hc (by simp [hslot]), hslot]
      rfl
    have hunder : t.Under c x := by
      rw [hzero]
      exact under_of_rooted hs h.rooted (fun _ hy => hy.elim) hx (Nat.zero_le _)
    exact absurd (eq_of_under_of_below hc hbelow hunder) hne
  | some p =>
    obtain ⟨pe, hpe, -⟩ := hs.listed hc hp id
    exact ⟨p, pe, rfl, hpe, (h.settable c).setter hc hslot hp hpe⟩

/-- A root that is no leaf, or has no parent, can be assigned to as far as it has to. -/
theorem Equips.settable (h : t.Equips schema id) (hroot : schema.isLeaf = true →
    ∀ {e}, t.element? id = some e → e.parent = none) (x : ElementId) : t.Settable x := by
  by_cases hx : x = id
  · subst hx
    refine ⟨fun he hslot => (h.root he hslot).1, fun he hslot hp => ?_⟩
    rw [hroot (h.root he hslot).2 he] at hp
    cases hp
  · exact h.others x hx

theorem Assignable.enlisted (h : t.Assignable) (id : ElementId) (l : KeyedList) (key : String)
    (entry : ElementId) : (t.enlisted id l key entry).Assignable := by
  refine ⟨fun x => ?_, Rooted.enlisted h.rooted id l key entry⟩
  have hback : ∀ {y e'}, (t.enlisted id l key entry).element? y = some e' →
      ∃ e, t.element? y = some e ∧ e'.bare = e.bare := by
    intro y e' he'
    obtain ⟨e, he, hb, -⟩ := retains_enlisted t id l key entry he'
    exact ⟨e, he, hb⟩
  exact (h.settable x).congr hback fun _ _ => hback

theorem assignable_addEntry (hs : Sound t ∅) (h : t.Assignable) (id : ElementId)
    (key : Option String) :
    (addEntry id key).Ensures t (fun _ t' => t'.Assignable) fun _ t' => t'.Assignable := by
  refine ensures_addEntry (fun _ => h) fun {p e l key' parts path} _ he hl _ => ?_
  have hdistinct : (Schema.container l.schema.entry .empty).Distinct :=
    Schema.distinct_container.2 (hs.distinct he hl)
  refine ((ensures_buildEntry hs he hl).and
    (settable_build _ hdistinct hs (fits_entrySpec he hl path) h.settable)).mono
      (fun entry t₁ h₁ => ?_)
    fun _ t₁ h₁ => ⟨h₁.2, fun hx hlt => h.rooted (h₁.1.2.element _ ▸ hx) hlt⟩
  obtain ⟨hent, hequips⟩ := h₁
  have hbuilt : t₁.Assignable :=
    ⟨hequips.settable fun hleaf => (by cases hleaf), hent.rooted_of h.rooted (Nat.zero_le _) he⟩
  refine ⟨fun _ _ => hbuilt, fun before _ => ?_⟩
  refine ((shrinks_tryAssignKey entry _ before).ensures t₁).mono (fun _ t₂ hs₂ => ?_)
    fun _ t₂ hs₂ => hbuilt.shrinks hs₂
  refine ⟨fun _ => hbuilt.shrinks hs₂, fun e₂ _ => ?_⟩
  have hjoined := (hbuilt.shrinks hs₂).enlisted id l key' entry
  exact ((shrinks_commit p).ensures _).mono (fun _ t₃ hs₃ => hjoined.shrinks hs₃)
    fun _ t₃ hs₃ => hjoined.shrinks hs₃

theorem assignable_delete (hs : Sound t ∅) (h : t.Assignable) (id : ElementId) (key : String) :
    (delete id key).Ensures t (fun _ t' => t'.Assignable) fun _ t' => t'.Assignable := by
  refine ensures_delete (fun _ => h) fun {e} he => ?_
  have h₁ : (t.tell (.deleting e.path key)).Assignable := h.shrinks (shrinks_of_slots rfl rfl)
  refine ⟨fun _ => h₁, fun {p l entry rest} _ hl htake => ?_⟩
  obtain ⟨hschema, hperm⟩ := KeyedList.perm_of_take (hs.keys he hl) htake
  have hsub : rest.members.Subperm l.members :=
    (List.sublist_cons_self _ _).subperm.trans hperm.symm.subperm
  have h₂ := h₁.shrinks (shrinks_withList (t := t.tell (.deleting e.path key)) he hl hschema hsub)
  refine ((shrinks_removeSubtree entry).ensures _).mono (fun _ t₃ hs₃ => ?_) fun _ t₃ hs₃ =>
    h₂.shrinks hs₃
  refine ((shrinks_commit p).ensures t₃).mono (fun _ t₄ hs₄ => ?_) fun _ t₄ hs₄ =>
    (h₂.shrinks hs₃).shrinks hs₄
  exact ((h₂.shrinks hs₃).shrinks hs₄).shrinks (shrinks_of_slots rfl rfl)

theorem frameStable_assignable : FrameStable Assignable fun _ => True where
  plan := fun _ _ _ _ => trivial
  unset := fun {hook} _ t h => h.shrinks (shrinks_runUnset hook t)
  same := fun hs h => h.shrinks hs.shrinks

theorem assignable_after {op : Operation} (hs : Sound t ∅) (h : t.Assignable)
    (hop : t.Handling op) :
    (op.after t).Assignable := by
  have hframe := frameStable_assignable
  cases op with
  | set id active => exact hframe.assignStable.set id active t h
  | setLeaf id raw => exact hframe.assignStable.setLeaf id raw t h
  | editItem id edit => exact hframe.editItem id edit t h
  | extend id raws => exact hframe.extend id raws t h
  | unset id => exact h.shrinks (shrinks_unset id t)
  | removeSubtree id => exact h.shrinks (shrinks_removeSubtree id t)
  | add id key =>
    refine rel_of_ensures (R := fun _ t' => t'.Assignable) (x := add id key)
      (ensures_add (fun _ _ => h) fun {e l} _ _ => ?_)
    have htold : Sound (t.tell (.adding e.path)) ∅ := hs.sameFrame (sameFrame_tell t _)
    exact (assignable_addEntry htold (h.shrinks (shrinks_of_slots rfl rfl)) id key).mono
      (fun _ _ hd => hd.shrinks (shrinks_of_slots rfl rfl)) fun _ _ hf => hf
  | delete id key =>
    exact rel_of_ensures (R := fun _ t' => t'.Assignable) (assignable_delete hs h id key)
  | _ => exact hop.elim

/-- In the tree of a schema, whatever is done with it, all leaves can be assigned to through their
parents. -/
theorem assignable_of_evolves {schema : Blueprint} (hroot : spec.parent = none)
    (h : Evolves schema spec t) : Sound t ∅ ∧ t.Assignable := by
  have hfit : ({} : Tree).HasPlace spec := .inl hroot
  refine h.keeps (I := fun t => Sound t ∅ ∧ t.Assignable) (fun t op hI hop => ?_) ⟨?_, ?_⟩
  · exact ⟨sound_after hI.1 (by cases op <;> first | exact hop.elim | trivial),
      assignable_after hI.1 hI.2 hop⟩
  · have hsound : Sound ((Operation.instantiate schema spec).after {}) ∅ :=
      sound_after sound_empty hfit
    exact hsound
  · refine rel_of_ensures (R := fun _ t' => t'.Assignable) (x := instantiate schema spec) ?_
    have hnone : ∀ {x e}, (tell {} (.instantiating spec.name)).element? x ≠ some e := by
      simp [element?, tell]
    have hsound : Sound (tell {} (.instantiating spec.name)) ∅ :=
      sound_empty.sameFrame (sameFrame_tell _ _)
    have hplace : (tell {} (.instantiating spec.name)).Fits spec := (HasPlace.fits (.inl hroot)).1
    rw [instantiate, ensures_changing_bind]
    have hbuild := (ensures_build schema.root schema.distinct hsound hplace).and
      (settable_build schema.root schema.distinct hsound hplace fun x =>
        ⟨fun he => absurd he hnone, fun he => absurd he hnone⟩)
    refine (hbuild.mono (fun _ _ hb => hb) fun _ t₁ hf => ?_).bind fun id t₁ hb => ?_
    · exact ⟨hf.2, fun hx => absurd (hf.1.2.element _ ▸ hx) hnone⟩
    · obtain ⟨hb, hequips⟩ := hb
      have hbuilt : t₁.Assignable := by
        refine ⟨hequips.settable fun _ {e} he => ?_, ?_⟩
        · obtain ⟨e', he', -, hpar, -⟩ := hb.element
          obtain rfl : e = e' := Option.some.inj (he.symm.trans he')
          rw [hpar, hroot]
        · have hzero : id = ⟨0⟩ := hb.id_eq
          intro x e hx hlt
          rw [← hzero] at hlt ⊢
          exact hb.rooted hx hlt
      rw [ensures_reading_bind]
      refine ⟨fun _ _ => ?_, fun _ _ => hbuilt⟩
      rw [ensures_get_bind]
      refine ⟨fun e _ => ?_, fun _ => hbuilt⟩
      rw [ensures_changing_bind]
      exact hbuilt.shrinks (shrinks_of_slots rfl rfl)

end DataTree.Tree
