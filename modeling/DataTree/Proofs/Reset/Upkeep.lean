import DataTree.Proofs.Reset.Idle
import DataTree.Proofs.Reset.Provided

/-!
# DataTree.Proofs.Reset.Upkeep

Trees that lose no fields, and when their elements were made.

Upkeep is all that is done with a tree once it has been built, but for removing the child
of a container.  It keeps a tree arranged, and its registry provided (`maintained_after`).
An element is made by instantiating a schema or by adding an entry, and then the tree
`Makes` a tree in which it has just been built (`exists_born`).  From then on it may hold
data and lose it, and is otherwise what it was (`Lasts`).
-/

namespace DataTree

open Edit Outcome

namespace Tree

variable {t t' t₀ t₁ : Tree} {id x : ElementId} {e : Element} {op : Operation} {schema : Blueprint}
  {spec : ElementSpec} {safe : Prop} {n : Nat}

/-! ## Upkeep -/

/-- Everything that is done with a tree once it has been built, but for removing a child of a
container. -/
def Upkeep (t : Tree) : Operation → Prop
  | .wrap _ _ _ | .instantiate _ _ => False
  | .removeSubtree id => ∀ {e q qe}, t.element? id = some e → e.parent = some q →
      t.element? q = some qe → qe.content ≠ .container
  | _ => True

/-- What upkeep makes of the tree that a schema describes. -/
def Matures (schema : Blueprint) (spec : ElementSpec) (t : Tree) : Prop :=
  Reaches Upkeep ((Operation.instantiate schema spec).after {}) t

/-- Upkeep is a way of handling a tree. -/
theorem Upkeep.handling (h : t.Upkeep op) : t.Handling op := by
  cases op <;> first | exact h | trivial

/-- Taking out what no container lists leaves all children where they are. -/
theorem fades_detach
    (hno : ∀ {q qe}, e.parent = some q → t.element? q = some qe → qe.content ≠ .container) :
    t.Fades (t.detach e) := by
  intro x xe' hx
  rw [element?_detach] at hx
  split at hx
  · next hp =>
    obtain ⟨xe, hxe, rfl⟩ := Option.map_eq_some_iff.1 hx
    have hc := hno hp hxe
    refine ⟨xe, hxe, (xe.shrinks_detach e.name e.id).bare, ?_, fun hdata => ?_⟩
    · unfold Element.detach
      split
      · next hcont => exact absurd hcont hc
      · rfl
      · rfl
    · unfold Element.detach at hdata
      split at hdata
      · next hcont => exact absurd hcont hc
      · next l hl =>
        rw [hl]
        rw [Content.holdsData, KeyedList.isEmpty, KeyedList.forget] at hdata
        rw [Content.holdsData, KeyedList.isEmpty]
        cases hm : l.members with
        | nil => simp [hm] at hdata
        | cons m ms => rfl
      · exact hdata
  · exact ⟨xe', hx, rfl, rfl, fun hdata => hdata⟩

/-- Removing an element that is no child of a container keeps a tree orderly. -/
theorem orderly_removeSubtree (h : t.Orderly safe ∅)
    (hno : ∀ {e q qe}, t.element? id = some e → e.parent = some q → t.element? q = some qe →
      qe.content ≠ .container) : ((removeSubtree id).on t).2.Orderly safe ∅ := by
  cases he : t.element? id with
  | none => rwa [on_removeSubtree_of_none he]
  | some e =>
    obtain ⟨t', ht', hr⟩ := h.sound.removeSubtree he
    have hs := shrinks_removeSubtree id t
    have hsound := h.sound.removes he (by rwa [ht'] at hs) hr
    rw [Set.empty_sdiff] at hsound
    rw [ht']
    refine h.fades (trans_of Fades (fades_detach (hno he)) fun x e' he' => ?_) hsound
    by_cases hu : t.Under id x
    · rw [hr.gone hu] at he'
      cases he'
    · exact ⟨e', hr.stays hu ▸ he', rfl, rfl, fun hdata => hdata⟩

/-- A tree with a sound structure that has lost no fields, and whose registry has what it needs. -/
structure Maintained (t : Tree) : Prop where
  orderly : t.Orderly False ∅
  provided : t.Provided t.slots.size

/-- A tree that has just been instantiated is maintained. -/
theorem maintained_instantiate (hroot : spec.parent = none) :
    ((Operation.instantiate schema spec).after {}).Maintained where
  orderly :=
    have h := orderly_instantiate hroot
    ⟨h.sound, h.arranged, False.elim, False.elim⟩
  provided := provided_instantiate schema spec

/-- Upkeep keeps a tree maintained, whether an operation succeeds or fails. -/
theorem maintained_after (h : t.Maintained) (hop : t.Upkeep op) : (op.after t).Maintained where
  provided := provided_after h.provided h.orderly.sound h.orderly.arranged hop.handling
  orderly := by
    cases op with
    | set id active =>
      refine rel_of_ensures (R := fun _ t' => t'.Orderly False ∅) ?_
      rw [Tree.set, ensures_reading_bind]
      refine ⟨fun p hp => h.orderly.commitUnfilled
        ((frameStable_sound ∅).plan h.orderly.sound hp), ?_⟩
      exact fun _ _ => h.orderly
    | removeSubtree id => exact orderly_removeSubtree h.orderly hop
    | wrap | instantiate => exact hop.elim
    | _ => exact orderly_after h.orderly trivial

/-- Upkeep maintains a tree. -/
theorem maintained_of_matures (hroot : spec.parent = none)
    (h : Matures schema spec t) : t.Maintained :=
  h.keeps (fun _ _ hm hop => maintained_after hm hop) (maintained_instantiate hroot)

/-! ## What an element is from the beginning -/

/-- What is still there of the elements so far is what it was, but for the data that it holds,
its mark of change, and its children. -/
structure Lasts (t t' : Tree) : Prop where
  size_le : t.slots.size ≤ t'.slots.size
  element : ∀ {x e'}, x.index < t.slots.size → t'.element? x = some e' →
    ∃ e, t.element? x = some e ∧ e'.bare = e.bare

instance : IsPreorder Tree Lasts where
  refl _ := ⟨Nat.le_refl _, fun _ he => ⟨_, he, rfl⟩⟩
  trans _ _ _ h h' :=
    { size_le := Nat.le_trans h.size_le h'.size_le
      element := fun hx he'' => by
        obtain ⟨e', he', hb'⟩ := h'.element (Nat.lt_of_lt_of_le hx h.size_le) he''
        obtain ⟨e, he, hb⟩ := h.element hx he'
        exact ⟨e, he, hb'.trans hb⟩ }

theorem Shrinks.lasts (h : t.Shrinks t') : t.Lasts t' where
  size_le := Nat.le_of_eq h.size.symm
  element := fun _ he' => by
    obtain ⟨e, he, hs⟩ := h.element he'
    exact ⟨e, he, hs.bare⟩

theorem lasts_of_element (hsize : t.slots.size ≤ t'.slots.size)
    (h : ∀ {x : ElementId}, x.index < t.slots.size → t'.element? x = t.element? x) :
    t.Lasts t' where
  size_le := hsize
  element := fun hx he' => ⟨_, h hx ▸ he', rfl⟩

theorem lasts_tell (t : Tree) (event : Event) : t.Lasts (t.tell event) :=
  lasts_of_element (Nat.le_refl _) fun _ => rfl

theorem lasts_enlisted (t : Tree) (id : ElementId) (l : KeyedList) (key : String)
    (entry : ElementId) : t.Lasts (t.enlisted id l key entry) where
  size_le := Nat.le_of_eq (size_slots_enlisted t id l key entry).symm
  element := fun _ he' => by
    obtain ⟨e, he, hb, -⟩ := retains_enlisted t id l key entry he'
    exact ⟨e, he, hb⟩

/-! ## Births -/

/-- The tree in which the elements that an operation makes have just been built: all of a tree
before it is told about, or an entry before it is given its key and put into its list. -/
inductive Makes (t : Tree) : Operation → Tree → Prop
  | instantiate {schema : Blueprint} {spec : ElementSpec} {id : ElementId} {t₀ : Tree}
      (hbuild : (build schema spec).on (t.tell (.instantiating spec.name)) = (.ok id, t₀)) :
      Makes t (.instantiate schema spec) t₀
  | add {id : ElementId} {key : Option String} {e : Element} {l : KeyedList} {p : Plan}
      {key' path : String}
      {parts : List String} {entry : ElementId} {t₀ : Tree} (he : t.element? id = some e)
      (hl : e.content = .list l) (hp : (t.tell (.adding e.path)).plan id none = .ok p)
      (hkey : entryKey l e.path t.madeKeys key = .ok (key', parts, path))
      (hbuild : (build (.container l.schema.entry .empty) (entrySpec id e path)).on
        (t.tell (.adding e.path)) = (.ok entry, t₀)) : Makes t (.add id key) t₀

/-- What an operation makes is determined. -/
theorem Makes.unique {t₀' : Tree} (h : t.Makes op t₀) (h' : t.Makes op t₀') : t₀ = t₀' := by
  cases h with
  | instantiate hbuild =>
    obtain ⟨hbuild'⟩ := h'
    exact (Prod.mk.inj (hbuild.symm.trans hbuild')).2
  | add he hl hp hkey hbuild =>
    obtain - | ⟨he', hl', -, hkey', hbuild'⟩ := h'
    obtain rfl := Option.some.inj (he.symm.trans he')
    obtain rfl := Content.list.inj (hl.symm.trans hl')
    obtain ⟨-, hrest⟩ := Prod.mk.inj (Except.ok.inj (hkey.symm.trans hkey'))
    obtain ⟨-, rfl⟩ := Prod.mk.inj hrest
    exact (Prod.mk.inj (hbuild.symm.trans hbuild')).2

/-- What has just been built holds no data, and its hooks are those of its children. -/
structure Newborn (n : Nat) (t₀ : Tree) : Prop where
  sound : ∃ pending, Sound t₀ pending
  arranged : ∀ {x : ElementId}, n ≤ x.index → t₀.ArrangedAt x
  blank : ∀ {x : ElementId} {e}, n ≤ x.index → t₀.element? x = some e → e.content.holdsData = false

/-- What has just been built is newborn. -/
theorem newborn_of_build {schema : Schema} (hd : schema.Distinct) (hs : Sound t ∅)
    (hfit : t.Fits spec) (h : (build schema spec).on t = (.ok id, t₀)) :
    Newborn t.slots.size t₀ := by
  have hbuilt := (ensures_build schema hd hs hfit).of_ok h
  have hlaid := (laid_build schema hd hs hfit).of_ok h
  have hid : id.index = t.slots.size := by rw [hbuilt.id_eq]
  exact ⟨⟨_, hbuilt.sound⟩, fun hx => hlaid.arranged (hid ▸ hx), fun hx => hlaid.blank (hid ▸ hx)⟩

/-- What an operation does to the elements of a tree: it makes some, or it makes none. -/
structure Births (t : Tree) (op : Operation) (t' : Tree) : Prop where
  lasts : t.Lasts t'
  born : ∀ {t₀}, t.Makes op t₀ → Newborn t.slots.size t₀ ∧ t₀.Lasts t'
  made : ∀ {x}, t.slots.size ≤ x.index → (t'.element? x).isSome →
    ∃ t₀, t.Makes op t₀ ∧ x.index < t₀.slots.size

/-- No operation but adding an entry makes anything of a tree that is there. -/
theorem shrinks_after (hs : Sound t ∅) (hop : t.Handling op) (hno : ∀ id key, op ≠ .add id key) :
    t.Shrinks (op.after t) := by
  have hframe := frameStable_shrinks t
  have hself := refl_of Shrinks t
  cases op with
  | set id active => exact hframe.assignStable.set id active t hself
  | setLeaf id raw => exact shrinks_setLeaf id raw t
  | editItem id edit => exact hframe.editItem id edit t hself
  | extend id raws => exact hframe.extend id raws t hself
  | unset id => exact shrinks_unset id t
  | removeSubtree id => exact shrinks_removeSubtree id t
  | delete id key =>
    refine rel_of_ensures (ensures_delete (fun _ => hself) fun {e} he => ?_)
    have htell : ∀ (t' : Tree) event, t'.Shrinks (t'.tell event) :=
      fun t' event => shrinks_of_slots rfl rfl
    have h₁ := htell t (.deleting e.path key)
    refine ⟨fun _ => h₁, fun {p l entry rest} _ hl htake => ?_⟩
    obtain ⟨hschema, hperm⟩ := KeyedList.perm_of_take (hs.keys he hl) htake
    have hsub : rest.members.Subperm l.members :=
      (List.sublist_cons_self _ _).subperm.trans hperm.symm.subperm
    have h₂ :=
      trans_of Shrinks h₁ (shrinks_withList (t := t.tell (.deleting e.path key)) he hl hschema hsub)
    refine ((shrinks_removeSubtree entry).ensures _).mono (fun _ t₃ hs₃ => ?_)
      fun _ t₃ hs₃ => trans_of Shrinks h₂ hs₃
    have h₃ := trans_of Shrinks h₂ hs₃
    refine ((shrinks_commit p).ensures t₃).mono (fun _ t₄ hs₄ => ?_) fun _ t₄ hs₄ =>
      trans_of Shrinks h₃ hs₄
    exact trans_of Shrinks (trans_of Shrinks h₃ hs₄) (htell t₄ _)
  | add id key => exact absurd rfl (hno id key)
  | _ => exact hop.elim

/-- An operation that only takes away makes nothing. -/
theorem births_of_shrinks (h : t.Shrinks t') (hno : ∀ t₀, ¬ t.Makes op t₀) : t.Births op t' where
  lasts := h.lasts
  born := fun hm => absurd hm (hno _)
  made := fun hx hsome => by
    obtain ⟨e, he⟩ := Option.isSome_iff_exists.1 hsome
    have hlt := index_lt_of_element? he
    rw [h.size] at hlt
    omega

/-- Where nothing is made, nothing is there that was not there before. -/
theorem births_of_element (hsize : t.slots.size ≤ t'.slots.size)
    (hel : ∀ x, t'.element? x = t.element? x) (hno : ∀ t₀, ¬ t.Makes op t₀) : t.Births op t' where
  lasts := lasts_of_element hsize fun _ => hel _
  born := fun hm => absurd hm (hno _)
  made := fun hx hsome => by
    rw [hel, element?_eq_none_of_size_le hx] at hsome
    cases hsome

/-- What is made lasts through the rest of the operation. -/
theorem births_of_makes (hm : t.Makes op t₀) (hnew : Newborn t.slots.size t₀) (hold : t.Lasts t₀)
    (h : t₀.Lasts t') (hsize : t'.slots.size = t₀.slots.size) : t.Births op t' where
  lasts := trans_of Lasts hold h
  born := fun hm' => hm.unique hm' ▸ ⟨hnew, h⟩
  made := fun {x} _ hsome => by
    obtain ⟨e, he⟩ := Option.isSome_iff_exists.1 hsome
    have hlt := index_lt_of_element? he
    exact ⟨t₀, hm, hsize ▸ hlt⟩

/-- The rest of adding an entry, from where it has been built. -/
theorem births_add (hs : Sound t ∅) (id : ElementId) (key : Option String) :
    t.Births (.add id key) ((Operation.add id key).after t) := by
  have hnone : ∀ {e}, (∀ {p l r}, t.element? id = some e →
    (t.tell (.adding e.path)).plan id none = .ok p →
      e.content = .list l → entryKey l e.path t.madeKeys key ≠ .ok r) → t.element? id = some e →
      ∀ t₀, ¬ t.Makes (.add id key) t₀ := by
    intro e hstop he t₀ hm
    obtain - | ⟨he', hl, hp, hkey, -⟩ := hm
    obtain rfl := Option.some.inj (he.symm.trans he')
    exact hstop he' hp hl hkey
  refine rel_of_ensures (R := fun t t' => t.Births (.add id key) t')
    (ensures_add (fun hstop _ => ?_) fun {e l} he hl => ?_)
  · refine births_of_shrinks (refl_of Shrinks t) fun t₀ hm => ?_
    obtain - | ⟨he, hl, -⟩ := hm
    exact hstop he hl
  let told := t.tell (.adding e.path)
  have hs₁ : Sound told ∅ := hs.sameFrame (sameFrame_of_slots rfl rfl rfl)
  refine ensures_addEntry_of_stop (fun hstop _ => ?_)
    fun {p e' l' key' parts path} hp he' hl' hkey => ?_
  · refine births_of_element (Nat.le_refl _) (fun _ => rfl)
      (hnone (fun he hp hl => hstop hp he hl) he)
  obtain rfl : e = e' := Option.some.inj (he.symm.trans he')
  obtain rfl := Content.list.inj (hl.symm.trans hl')
  have hdistinct : (Schema.container l.schema.entry .empty).Distinct :=
    Schema.distinct_container.2 (hs.distinct he hl)
  have hfit := fits_entrySpec (t := told) he hl path
  refine ensures_iff.2 ⟨fun entry t₀ hbuild => ?_, fun err t' hfail => ?_⟩
  · have hm : t.Makes (.add id key) t₀ := .add he hl hp hkey hbuild
    have hent := (ensures_buildEntry hs₁ he hl).of_ok hbuild
    have hnew : Newborn told.slots.size t₀ := newborn_of_build hdistinct hs₁ hfit hbuild
    have hold : t.Lasts t₀ := lasts_of_element (Nat.le_of_lt hent.size_lt) fun hx => hent.older hx
    have hdone : ∀ {t'}, t₀.Lasts t' → t'.slots.size = t₀.slots.size → t.Births (.add id key) t' :=
      fun h hsize => births_of_makes hm hnew hold h hsize
    refine ⟨fun _ _ => hdone (refl_of Lasts t₀) rfl, fun before _ => ?_⟩
    refine ((shrinks_tryAssignKey entry _ before).ensures t₀).mono (fun _ t₂ hs₂ => ?_)
      fun _ t₂ hs₂ => hdone hs₂.lasts hs₂.size
    refine ⟨fun _ => hdone hs₂.lasts hs₂.size, fun e₂ _ => ?_⟩
    have h₃ := trans_of Lasts hs₂.lasts (lasts_enlisted t₂ id l key' entry)
    have hsize₃ := (size_slots_enlisted t₂ id l key' entry).trans hs₂.size
    refine ((shrinks_commit p).ensures _).mono (fun _ t₄ hs₄ => ?_)
      fun _ t₄ hs₄ => hdone (trans_of Lasts h₃ hs₄.lasts) (hs₄.size.trans hsize₃)
    exact hdone (trans_of Lasts (trans_of Lasts h₃ hs₄.lasts) (lasts_tell t₄ _))
      (hs₄.size.trans hsize₃)
  · obtain ⟨-, hrestores⟩ := (ensures_buildEntry hs₁ he hl).of_error hfail
    refine births_of_element hrestores.size_le (fun x => hrestores.element x) fun t₀ hm => ?_
    obtain - | ⟨he', hl', -, hkey', hbuild⟩ := hm
    obtain rfl := Option.some.inj (he.symm.trans he')
    obtain rfl := Content.list.inj (hl.symm.trans hl')
    obtain ⟨-, hrest⟩ := Prod.mk.inj (Except.ok.inj (hkey.symm.trans hkey'))
    obtain ⟨-, rfl⟩ := Prod.mk.inj hrest
    rw [hfail] at hbuild
    cases hbuild

/-- **What upkeep makes** is entries, each of them as it has been built; everything else lasts. -/
theorem births_after (hs : Sound t ∅) (hop : t.Upkeep op) : t.Births op (op.after t) := by
  cases op with
  | add id key => exact births_add hs id key
  | wrap | instantiate => exact hop.elim
  | _ =>
    refine births_of_shrinks (shrinks_after hs hop.handling (by rintro _ _ ⟨⟩)) ?_
    rintro _ ⟨⟩

/-- Instantiating makes the whole tree. -/
theorem births_instantiate (hroot : spec.parent = none) :
    Births {} (.instantiate schema spec) ((Operation.instantiate schema spec).after {}) := by
  let told : Tree := tell {} (.instantiating spec.name)
  have hs : Sound told ∅ := sound_empty.sameFrame (sameFrame_of_slots rfl rfl rfl)
  have hfit : told.Fits spec := by constructor <;> simp [HasParent, hroot]
  refine rel_of_ensures (R := fun t t' => t.Births (.instantiate schema spec) t')
    (x := Tree.instantiate schema spec) ?_
  rw [Tree.instantiate, ensures_changing_bind, ensures_bind]
  refine ensures_iff.2 ⟨fun id t₀ hbuild => ?_, fun err t' hfail => ?_⟩
  · have hm : Makes {} (.instantiate schema spec) t₀ := .instantiate hbuild
    have hnew : Newborn 0 t₀ := newborn_of_build schema.distinct hs hfit hbuild
    have hold : Lasts {} t₀ :=
      lasts_of_element (Nat.zero_le _) fun hx => absurd hx (Nat.not_lt_zero _)
    have hstop := births_of_makes hm hnew hold (refl_of Lasts t₀) rfl
    rw [ensures_reading_bind]
    refine ⟨fun _ _ => ?_, fun _ _ => hstop⟩
    rw [ensures_get_bind]
    refine ⟨fun e _ => ?_, fun _ => hstop⟩
    rw [ensures_changing_bind]
    exact births_of_makes hm hnew hold (lasts_tell t₀ _) rfl
  · obtain ⟨-, hrestores⟩ := (ensures_build schema.root schema.distinct hs hfit).of_error hfail
    refine births_of_element (Nat.zero_le _) (fun x => hrestores.element x) fun t₀ hm => ?_
    obtain ⟨hbuild⟩ := hm
    rw [hfail] at hbuild
    cases hbuild

/-- The element `x` was made on the way to `t`, by instantiating the schema or by adding an entry,
and `t₀` is the tree in which it had just been built. -/
def Born (schema : Blueprint) (spec : ElementSpec) (x : ElementId) (t₀ t : Tree) : Prop :=
  ∃ t₁ op, (t₁ = {} ∧ op = .instantiate schema spec ∨ Matures schema spec t₁ ∧ t₁.Upkeep op) ∧
    t₁.Makes op t₀ ∧ t₁.slots.size ≤ x.index ∧ x.index < t₀.slots.size ∧
    Reaches Upkeep (op.after t₁) t

/-- Under upkeep elements last. -/
theorem lasts_of_reaches (h : t.Maintained) (hr : Reaches Upkeep t t') : t.Lasts t' := by
  refine (hr.keeps (I := fun t' => t'.Maintained ∧ t.Lasts t') (fun t' op hI hop => ?_)
    ⟨h, refl_of Lasts t⟩).2
  exact ⟨maintained_after hI.1 hop, trans_of Lasts hI.2 (births_after hI.1.orderly.sound hop).lasts⟩

/-- What was made has lasted since it was built. -/
theorem Born.lasts (hroot : spec.parent = none) (h : Born schema spec x t₀ t) :
    Newborn x.index t₀ ∧ x.index < t₀.slots.size ∧ t₀.Lasts t := by
  obtain ⟨t₁, op, hop, hm, hle, hlt, hr⟩ := h
  obtain ⟨hbirths, hafter⟩ : t₁.Births op (op.after t₁) ∧ (op.after t₁).Maintained := by
    obtain ⟨rfl, rfl⟩ | ⟨h₁, hop⟩ := hop
    · exact ⟨births_instantiate hroot, maintained_instantiate hroot⟩
    · have hmain := maintained_of_matures hroot h₁
      exact ⟨births_after hmain.orderly.sound hop, maintained_after hmain hop⟩
  obtain ⟨hnew, hlasts⟩ := hbirths.born hm
  refine ⟨⟨hnew.sound, fun hx => hnew.arranged (Nat.le_trans hle hx),
    fun hx => hnew.blank (Nat.le_trans hle hx)⟩,
    hlt, trans_of Lasts hlasts (lasts_of_reaches hafter hr)⟩

/-- **Every element was made at some time.** -/
theorem exists_born (hroot : spec.parent = none) (h : Matures schema spec t)
    (hx : (t.element? x).isSome) : ∃ t₀, Born schema spec x t₀ t := by
  induction h with
  | refl =>
    obtain ⟨t₀, hm, hlt⟩ := (births_instantiate hroot).made (Nat.zero_le _) hx
    exact ⟨t₀, {}, _, .inl ⟨rfl, rfl⟩, hm, Nat.zero_le _, hlt, .refl⟩
  | @tail t t' h hstep ih =>
    obtain ⟨op, hop, rfl⟩ := hstep
    have hbirths := births_after (maintained_of_matures hroot h).orderly.sound hop
    by_cases hlt : x.index < t.slots.size
    · obtain ⟨e', he'⟩ := Option.isSome_iff_exists.1 hx
      obtain ⟨e, he, -⟩ := hbirths.lasts.element hlt he'
      obtain ⟨t₀, t₁, op₁, hop₁, hm, hle, hlt₁, hr⟩ := ih (by rw [he]; rfl)
      exact ⟨t₀, t₁, op₁, hop₁, hm, hle, hlt₁, hr.andThen op hop⟩
    · obtain ⟨t₀, hm, hlt₀⟩ := hbirths.made (Nat.le_of_not_lt hlt) hx
      exact ⟨t₀, t, op, .inr ⟨h, hop⟩, hm, Nat.le_of_not_lt hlt, hlt₀, .refl⟩

end Tree

end DataTree
