import DataTree.Proofs.RoundTrip.Confined

/-!
# DataTree.Proofs.RoundTrip.Nested

What is done within an element stays there.

The elements from `root` on are what is under `root` if each of them has its parent there
(`Tree.Rooted`).  Then every operation on one of them that follows no reference keeps it
so, and is confined to them (`Nest.after`); and what one operation does, any number of
them do (`Nest.reaches`).
-/

namespace DataTree.Tree

open Edit Outcome

variable {t t₁ t₂ t' : Tree} {id root entry x : ElementId} {e : Element} {l : KeyedList} {n : Nat}
  {path key : String} {parts : List String}

/-! ## Roots -/

/-- New entries do not change whose root an element is. -/
theorem Rooted.relist (h : t.Rooted root) (id : ElementId) (f : KeyedList → KeyedList) :
    (t.modifyElement id (Tree.relist f)).Rooted root := by
  refine h.congr fun {x e'} he' => ?_
  obtain ⟨e, he, rfl | ⟨-, l, -, rfl⟩⟩ := relist_cases he'
  · exact ⟨e', he, rfl⟩
  · exact ⟨e, he, rfl⟩

theorem Rooted.enlisted (h : t.Rooted root) (id : ElementId) (l : KeyedList) (key : String)
    (entry : ElementId) : (t.enlisted id l key entry).Rooted root := by
  have hinsert : (t.modifyElement id (Tree.relist (·.insert key entry))).Rooted root :=
    h.relist id _
  intro x e he
  rw [element?_enlisted] at he
  exact hinsert he

/-- A new entry of a list from `root` on. -/
theorem Entering.rooted_of (h : t.Entering id e path entry t') (hr : t.Rooted root)
    (hle : root.index ≤ id.index) (he : t.element? id = some e) : t'.Rooted root := by
  intro x xe hx hlt
  have hlater := h.index_lt he
  obtain hold | heq | hnew := Nat.lt_trichotomy x.index entry.index
  · rw [h.entry_eq] at hold
    exact hr (h.older hold ▸ hx) hlt
  · obtain ⟨ce, hce, hpar, -⟩ := h.element
    obtain rfl : x = entry := by
      cases x
      cases entry
      exact congrArg _ heq
    obtain rfl := Option.some.inj (hx.symm.trans hce)
    exact ⟨id, hpar, hle⟩
  · obtain ⟨p, hp, hep⟩ := h.rooted hx hnew
    exact ⟨p, hp, by omega⟩

/-! ## Being confined -/

/-- Old elements are marked at most, and registered as they were. -/
structure Confined (n : Nat) (t t' : Tree) : Prop where
  alike : Alike n t t'
  registry : t'.registry.before n = t.registry.before n

instance (n : Nat) : IsPreorder Tree (Confined n) where
  refl t := ⟨refl_of (Alike n) t, rfl⟩
  trans _ _ _ h h' := ⟨trans_of (Alike n) h.alike h'.alike, h'.registry.trans h.registry⟩

/-- Elements that are alike hold items and entries alike. -/
theorem Alike.covers (h : Alike n t t') : Covers n t t' where
  isSome := fun {x} hx hs => by
    rwa [← Option.isSome_map (f := Element.unmarked), h hx, Option.isSome_map]
  stocked := fun {x} hx hl => (stocked_of_held (h.held hx)).2 hl

theorem Alike.confined (h : Alike n t t') (hs : Saves n t t') : Confined n t t' :=
  ⟨h, hs.registry h.covers⟩

/-! ## Settled trees -/

/-- A tree whose structure is sound, which has no choices, and whose registry is in order and
mirrors it. -/
structure Settled (t : Tree) : Prop where
  sound : Sound t ∅
  mirrored : Mirrored t
  accounts : t.Accounts t.slots.size

/-- A settled tree is settled after every regular operation. -/
theorem Settled.after {op : Operation} (h : t.Settled) (hr : t.Regular op) (hu : t.Unchosen op) :
    (op.after t).Settled :=
  ⟨sound_after h.sound hr, mirrored_after h.mirrored hu, accounts_after op h.accounts⟩

/-- Events do not matter. -/
theorem Settled.tell (h : t.Settled) (event : Event) : (t.tell event).Settled where
  sound := (frameStable_sound ∅).same (sameFrame_tell t event) h.sound
  mirrored := entryStable_mirrored.tell event h.mirrored
  accounts := h.accounts.of_slots rfl rfl

/-! ## Adding -/

/-- What was there is marked at most, with its registrations as they were, and what is new is under
what the list `id` is under. -/
structure Unmoved (t : Tree) (id : ElementId) (t' : Tree) : Prop where
  confined : Confined t.slots.size t t'
  rooted : ∀ {root : ElementId}, root.index ≤ id.index → t.Rooted root → t'.Rooted root

/-- The entry `entry` of the list `id` stands, with its key, but is not yet in the list. -/
structure Filled (t : Tree) (id entry : ElementId) (t' : Tree) : Prop extends Unmoved t id t' where
  entry_eq : entry = ⟨t.slots.size⟩
  under : t'.Rooted entry

/-- The entry has come into the list, and some elements were marked. -/
def Joined (t : Tree) (id : ElementId) (l : KeyedList) (key : String) (entry : ElementId)
    (t' : Tree) : Prop :=
  ∃ t₂ ids, t.Filled id entry t₂ ∧ ((markChanged ids).on (t₂.enlisted id l key entry)).2 = t'

/-- Building an entry keeps the registry a mirror. -/
theorem Mirrored.ensures_buildEntry (h : Mirrored t) (he : t.element? id = some e)
    (hl : e.content = .list l) (path : String) :
    (build (.container l.schema.entry .empty) (entrySpec id e path)).Ensures t
      (fun _ => Mirrored) fun _ => Mirrored :=
  ensures_of_rel (R := fun _ => Mirrored) (entryStable_mirrored.build h he hl)

/-- Building an entry and assigning its key. -/
theorem ensures_filled (h : t.Settled) (he : t.element? id = some e) (hl : e.content = .list l)
    (hplain : l.schema.PlainKeys) (path : String) (parts : List String) :
    (build (.container l.schema.entry .empty) (entrySpec id e path)).Ensures t
      (fun entry t₁ => (∃ before, t₁.marks id = .ok before) ∧ ∀ before, t₁.marks id = .ok before →
        (tryAssignKey entry (l.schema.key.fields.zip parts) before).Ensures t₁
          (fun _ => t.Filled id entry) fun _ => t.Unmoved id)
      fun _ => t.Unmoved id := by
  have hmirror := h.mirrored.ensures_buildEntry he hl path
  have hsaves := (saves_build (n := t.slots.size) (.container l.schema.entry .empty)
    (entrySpec id e path)).ensures t
  refine ((((ensures_buildEntry h.sound he hl).and (raised_build _ _ t)).and
    hmirror).and hsaves).mono
    (fun entry t₁ h₁ => ?_) fun _ t' hf => ?_
  · obtain ⟨⟨⟨hent, hraised⟩, hm₁⟩, hsaves₁⟩ := h₁
    obtain ⟨hneat₁, hsaves₁⟩ := hsaves₁ h.accounts.neat
    refine ⟨hent.exists_marks he, fun before hbefore => ?_⟩
    have harrives := hraised.arrives rfl hplain hbefore
    have hentry : t.slots.size ≤ entry.index := by rw [hent.entry_eq]
    have hfields : ∀ q ∈ l.schema.key.fields.zip parts, q.1 ∈ l.schema.key.fields :=
      fun q hq => (List.of_mem_zip hq).1
    have halike := harrives.alike_tryAssignKey hm₁.choiceless hent.sound hentry hfields
    have hbuilt : Alike t.slots.size t t₁ := alike_of_element fun hx => hent.older hx
    have hunmoved : ∀ {t₂}, Alike t.slots.size t₁ t₂ → t₁.Shrinks t₂ →
        Given (Neat · t.slots.size) (Saves t.slots.size) t₁ t₂ → t.Unmoved id t₂ := fun ha hs hk =>
      ⟨(trans_of (Alike _) hbuilt ha).confined (trans_of (Saves _) hsaves₁ (hk hneat₁).2),
        fun hle hr => Rooted.shrinks (hent.rooted_of hr hle he) hs⟩
    have hkey :=
      ((shrinks_tryAssignKey entry (l.schema.key.fields.zip parts) before).ensures t₁).and
      ((saves_tryAssignKey (n := t.slots.size) entry (l.schema.key.fields.zip parts)
        before).ensures t₁)
    exact (halike.and hkey).mono
      (fun _ _ hd => ⟨hunmoved hd.1 hd.2.1 hd.2.2, hent.entry_eq,
        Rooted.shrinks hent.rooted hd.2.1⟩)
      fun _ _ hf => hunmoved hf.1 hf.2.1 hf.2.2
  · obtain ⟨⟨⟨⟨-, hrestores⟩, -⟩, -⟩, hsaves'⟩ := hf
    have halike : Alike t.slots.size t t' := alike_of_element fun _ => hrestores.element _
    exact ⟨halike.confined (hsaves' h.accounts.neat).2,
      fun _ hr => hr.congr fun he' => ⟨_, hrestores.element _ ▸ he', rfl⟩⟩

/-- A plan that unsets nothing can be carried out where its elements are. -/
theorem ensures_commit_of_marks {p : Plan} (hp : p.unsets = [])
    (hlive : ∀ y ∈ p.marks, (t.element? y).isSome) :
    (commit p).Ensures t (fun _ t' => ((markChanged p.marks).on t).2 = t') fun _ _ => False := by
  rw [commit, hp]
  exact ((ensures_markChanged hlive).and (ensures_on _ _)).mono
    (fun _ _ hd => congrArg Prod.snd hd.2) fun _ _ hf => hf.1

/-- What has not been moved is there. -/
theorem Unmoved.exists_element (h : t.Unmoved id t') (he : t.element? x = some e) :
    ∃ e', t'.element? x = some e' := by
  obtain ⟨e', he', -⟩ := h.confined.alike.element (index_lt_of_element? he) he
  exact ⟨e', he'⟩

/-- An entry that stands comes into the list. -/
theorem Filled.ensures_commit {p : Plan} (h : t.Filled id entry t') (hfree : t.Choiceless)
    (hp : t.plan id none = .ok p) (l : KeyedList) (key : String) :
    (commit p).Ensures (t'.enlisted id l key entry) (fun _ => t.Joined id l key entry)
      fun _ _ => False := by
  have hlive : ∀ y ∈ p.marks, ((t'.enlisted id l key entry).element? y).isSome := by
    intro y hy
    obtain ⟨ye, hye⟩ := exists_of_mem_marks hp hy
    obtain ⟨ye', hye'⟩ := h.toUnmoved.exists_element hye
    rw [element?_enlisted, isSome_element?_modifyElement, hye']
    rfl
  exact (ensures_commit_of_marks (unsets_of_planFrom hfree hp) hlive).mono
    (fun _ _ hd => ⟨t', p.marks, h, hd⟩) fun _ _ hf => hf

/-- Adding an entry to a list whose key leaves have no references. -/
theorem ensures_joined (h : t.Settled) (key : Option String)
    (hplain : ∀ {e l}, t.element? id = some e → e.content = .list l → l.schema.PlainKeys) :
    (addEntry id key).Ensures t
      (fun key' t' => ∃ e l entry parts path, t.element? id = some e ∧ e.content = .list l ∧
        entryKey l e.path t.madeKeys key = .ok (key', parts, path) ∧ t.Joined id l key' entry t')
      fun _ => t.Unmoved id := by
  have hstop : t.Unmoved id t := ⟨refl_of (Confined _) t, fun _ hr => hr⟩
  refine ensures_addEntry (fun _ => hstop) fun {p e l key' parts path} hp he hl hkey => ?_
  refine (ensures_filled h he hl (hplain he hl) path parts).mono
    (fun entry t₁ h₁ => ?_) fun _ _ hf => hf
  refine ⟨fun err herr => ?_, fun before hb => ?_⟩
  · obtain ⟨before, hb⟩ := h₁.1
    rw [hb] at herr
    cases herr
  refine (h₁.2 before hb).mono (fun _ t₂ h₂ => ⟨fun hnone => ?_, fun e₂ he₂ => ?_⟩) fun _ _ hf => hf
  · obtain ⟨e₂, he₂⟩ := h₂.toUnmoved.exists_element he
    rw [hnone] at he₂
    cases he₂
  exact (h₂.ensures_commit h.mirrored.choiceless hp l key').mono
    (fun _ _ hd => ⟨e, l, entry, parts, path, he, hl, hkey, hd⟩) fun _ _ hf => hf.elim

/-! ## Trees with a nest -/

/-- A settled tree with an element `root` that everything behind it is under. -/
structure Nest (root : ElementId) (t : Tree) : Prop extends Settled t where
  lt : root.index < t.slots.size
  rooted : t.Rooted root

theorem Mirrored.declared (h : Mirrored t) : t.Declared := fun id e he => by
  have hplain := (h.plain he).content
  cases hc : e.content with
  | custom c =>
    rw [hc] at hplain
    exact hplain
  | _ => trivial

/-- Events do not reach into a nest. -/
theorem Nest.tell (h : t.Nest root) (event : Event) : (t.tell event).Nest root where
  toSettled := h.toSettled.tell event
  lt := h.lt
  rooted := h.rooted

theorem Nest.neat (h : t.Nest root) : t.Neat root.index := ⟨h.accounts, Nat.le_of_lt h.lt⟩

/-- Adding to a list from `root` on. -/
theorem Nest.add (h : t.Nest root) (hid : root.index ≤ id.index) (key : Option String)
    (hplain : ∀ {e l}, t.element? id = some e → e.content = .list l → l.schema.PlainKeys) :
    Alike root.index t ((Tree.add id key).on t).2 ∧ ((Tree.add id key).on t).2.Rooted root := by
  have hstop : Alike root.index t t ∧ t.Rooted root := ⟨refl_of (Alike _) t, h.rooted⟩
  refine rel_of_ensures (R := fun t t' => Alike root.index t t' ∧ t'.Rooted root) ?_
  refine ensures_add (fun _ _ => hstop) fun {e _} _ _ => ?_
  have htold := h.tell (.adding e.path)
  refine (ensures_joined htold.toSettled key hplain).mono (fun key' t' hd => ?_) fun _ t' hf => ?_
  · obtain ⟨_, l, entry, _, _, _, _, _, t₂, ids, h₂, rfl⟩ := hd
    refine ⟨?_, Rooted.shrinks (Rooted.enlisted (h₂.rooted hid h.rooted) id l key' entry)
      (shrinks_markChanged ids _)⟩
    refine trans_of (Alike _) (h₂.confined.alike.mono (Nat.le_of_lt h.lt))
      (trans_of (Alike _) ?_ (alike_markChanged ids _))
    refine alike_of_element fun {x} hx => ?_
    rw [element?_enlisted, element?_modifyElement_of_ne]
    rintro rfl
    omega
  · exact ⟨hf.confined.alike.mono (Nat.le_of_lt h.lt), hf.rooted hid h.rooted⟩

/-- Deleting from a list from `root` on. -/
theorem Nest.delete (h : t.Nest root) (hid : root.index ≤ id.index) (key : String) :
    Alike root.index t ((Tree.delete id key).on t).2 ∧
    ((Tree.delete id key).on t).2.Rooted root := by
  have hstop : Alike root.index t t ∧ t.Rooted root := ⟨refl_of (Alike _) t, h.rooted⟩
  refine rel_of_ensures (R := fun t t' => Alike root.index t t' ∧ t'.Rooted root) ?_
  refine ensures_delete (fun _ => hstop) fun {e} he =>
    ⟨fun _ => hstop, fun {p l entry rest} hp hl htake => ?_⟩
  have htold := h.tell (.deleting e.path key)
  have htaken := htold.sound.takeEntry he hl htake
  have hrooted : ((t.tell (.deleting e.path key)).withList id rest).Rooted root :=
    Rooted.relist h.rooted id _
  have halike : Alike root.index t ((t.tell (.deleting e.path key)).withList id rest) :=
    alike_of_element fun {x} hx => element?_modifyElement_of_ne (by rintro rfl; omega) _
  have hlater : root.index < entry.index := by
    have hm : (key, entry) ∈ l.members := by
      obtain ⟨entry', hget, htake⟩ := Option.map_eq_some_iff.1 htake
      obtain ⟨rfl, -⟩ := Prod.mk.inj htake
      exact Assoc.mem_of_get?_eq_some hget
    obtain ⟨-, ce, hce, -, hpar, -⟩ := h.sound.entry he hl hm
    exact Nat.lt_of_le_of_lt hid (h.sound.parent_lt hce hpar)
  have hremove := htaken.alike_removeSubtree hrooted hlater
  refine ((ensures_of_rel hremove).and ((shrinks_removeSubtree entry).ensures _)).mono
    (fun _ t₂ h₂ => ?_) fun _ t₂ h₂ => ⟨trans_of (Alike _) halike h₂.1, Rooted.shrinks hrooted h₂.2⟩
  have hcommit : Leads (Alike root.index) (commit p) :=
    alike_commit (unsets_of_planFrom htold.mirrored.choiceless hp)
  have halike₂ := trans_of (Alike _) halike h₂.1
  exact ((hcommit.ensures t₂).and ((shrinks_commit p).ensures t₂)).mono
    (fun _ _ hd => ⟨trans_of (Alike _) halike₂ hd.1,
      Rooted.shrinks (Rooted.shrinks hrooted h₂.2) hd.2⟩)
    fun _ _ hf => ⟨trans_of (Alike _) halike₂ hf.1,
      Rooted.shrinks (Rooted.shrinks hrooted h₂.2) hf.2⟩

/-! ## Sessions in a nest -/

/-- What can be done within the element `root` without following references: leaves without
references are assigned to, items of leaf-lists come and go, entries of lists too, if their key
leaves have no references, and elements are marked, unset, and, but for `root` itself, removed. -/
def Inside (root : ElementId) (t : Tree) : Operation → Prop
  | .wrap _ _ _ | .instantiate _ _ => False
  | .set id _ | .editItem id _ _ | .extend id _ _ | .unset id | .delete id _ => t.Under root id
  | .setLeaf id _ => t.Under root id ∧
    ∀ {e type}, t.element? id = some e → leafType e = .ok type → type.involvesReference = false
  | .removeSubtree id => t.Under root id ∧ id ≠ root
  | .add id _ => t.Under root id ∧
    ∀ {e l}, t.element? id = some e → e.content = .list l → l.schema.PlainKeys

variable {op : Operation}

/-- What is done inside of an entry is regular. -/
theorem Inside.regular (h : Inside root t op) : t.Regular op := by
  cases op with
  | wrap | instantiate => exact h.elim
  | _ => trivial

/-- And it has nothing to do with choices. -/
theorem Inside.unchosen (h : Inside root t op) : t.Unchosen op := by
  cases op with
  | wrap | instantiate => exact h.elim
  | _ => trivial

/-- An operation within `root` marks older elements at most, and leaves what is behind `root` under
it. -/
theorem Nest.alike_after (h : t.Nest root) (hop : Inside root t op) :
    Alike root.index t (op.after t) ∧ (op.after t).Rooted root := by
  have hfree : t.Choiceless := h.mirrored.choiceless
  have hle : ∀ {id}, t.Under root id → root.index ≤ id.index :=
    fun hu => h.sound.index_le_of_under hu
  have hframe := frameStable_shrinks t
  have hself := refl_of Shrinks t
  have hrooted : ∀ {t'}, t.Shrinks t' → t'.Rooted root := fun hs => Rooted.shrinks h.rooted hs
  cases op with
  | wrap | instantiate => exact hop.elim
  | set id active =>
    refine ⟨?_, hrooted (hframe.assignStable.set id active t hself)⟩
    refine rel_of_ensures ?_
    rw [Tree.set, ensures_reading_bind]
    exact ⟨fun p hp => (alike_commit (unsets_of_planFrom hfree hp)).ensures t,
      fun _ _ => refl_of (Alike _) t⟩
  | setLeaf id raw =>
    exact ⟨alike_setLeaf hfree (hle hop.1) raw hop.2, hrooted (shrinks_setLeaf id raw t)⟩
  | editItem id edit =>
    exact ⟨alike_editItem hfree (hle hop) edit, hrooted (hframe.editItem id edit t hself)⟩
  | extend id raws =>
    exact ⟨alike_extend hfree (hle hop) raws, hrooted (hframe.extend id raws t hself)⟩
  | unset id =>
    exact ⟨h.sound.alike_unset h.mirrored.declared (hle hop), hrooted (shrinks_unset id t)⟩
  | removeSubtree id =>
    refine ⟨h.sound.alike_removeSubtree h.rooted ?_, hrooted (shrinks_removeSubtree id t)⟩
    refine Nat.lt_of_le_of_ne (hle hop.1) fun heq => hop.2 ?_
    cases id
    cases root
    exact congrArg _ heq.symm
  | add id key => exact h.add (hle hop.1) key hop.2
  | delete id key => exact h.delete (hle hop) key

/-- It leaves the registrations of older elements. -/
theorem Nest.saves_after (h : t.Nest root) (hop : Inside root t op) :
    Saves root.index t (op.after t) := by
  have hle : ∀ {id}, t.Under root id → root.index ≤ id.index :=
    fun hu => h.sound.index_le_of_under hu
  cases op with
  | wrap | instantiate => exact hop.elim
  | set id active =>
    exact (((leads_reading _).bind fun p => saves_commit p :
      Leads _ (Tree.set id active)) t h.neat).2
  | setLeaf id raw => exact (leads_setLeaf saves_assignFrom id raw t h.neat).2
  | editItem id edit => exact (saves_editItem (hle hop) edit t h.neat).2
  | extend id raws => exact (saves_extend (hle hop) raws t h.neat).2
  | unset id => exact (saves_runUnset (.contents id) t h.neat).2
  | removeSubtree id => exact (saves_removeSubtree id t h.neat).2
  | add id key => exact (saves_add (hle hop.1) key t h.neat).2
  | delete id key => exact (saves_delete (hle hop) key t h.neat).2

/-- An operation within `root` keeps it a nest, and is confined to it. -/
theorem Nest.after (h : t.Nest root) (hop : Inside root t op) :
    (op.after t).Nest root ∧ Confined root.index t (op.after t) := by
  obtain ⟨halike, hrooted⟩ := h.alike_after hop
  exact ⟨⟨h.toSettled.after hop.regular hop.unchosen,
    Nat.lt_of_lt_of_le h.lt (ages_after op t).size_le, hrooted⟩,
    halike.confined (h.saves_after hop)⟩

/-- So does any number of them. -/
theorem Nest.reaches (h : t.Nest root) (hr : Reaches (Inside root) t t') :
    t'.Nest root ∧ Confined root.index t t' :=
  hr.keeps (I := fun t' => t'.Nest root ∧ Confined root.index t t')
    (fun t₁ op h₁ hop => by
      obtain ⟨h₂, hc⟩ := h₁.1.after hop
      exact ⟨h₂, trans_of (Confined _) h₁.2 hc⟩)
    ⟨h, refl_of (Confined _) t⟩

end DataTree.Tree
