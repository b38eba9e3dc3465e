import DataTree.Proofs.Tracking.Restore

/-!
# DataTree.Proofs.Tracking.Entry

Adding and deleting entries keep links and marks in order, whether they succeed or fail.
-/

namespace DataTree.Tree

open Edit Outcome

variable {t t' : Tree} {id entry x : ElementId} {e : Element} {A V : Set ElementId}
  {before : List (ElementId × Bool)} {s : ListSchema Schema}

/-- Links and marks are in order. -/
structure Tended (t : Tree) : Prop where
  linked : t.Linked
  tracked : t.Tracked none

theorem tended_empty : Tended {} := ⟨linked_empty, tracked_empty⟩

theorem Tended.tell (h : t.Tended) (event : Event) : (t.tell event).Tended :=
  ⟨h.linked.tell event, h.tracked.of_slots rfl⟩

theorem tended_removeSubtree (id : ElementId) : Leads (Keeping Tended) (removeSubtree id) :=
  fun t h =>
  ⟨linked_removeSubtree id t h.linked, tracked_removeSubtree id t h.tracked⟩

/-- A plan that was made on a tree whose elements still have their parents. -/
theorem Tended.commit {p : Plan} {fuel : Nat} {active : Option Case} {t₀ : Tree} (h : t.Tended)
    (hp : t₀.planFrom fuel id active = .ok p) (ht : Touches A V t₀ t) :
    ((commit p).on t).2.Tended where
  linked := frameStable_linked.assignStable.commit (fun _ _ => trivial) t h.linked
  tracked := by
    refine tracked_commit ((climbs_of_planFrom hp).1.touches ht fun x hx => ?_) h.tracked
    obtain ⟨e, he⟩ := exists_of_mem_marks hp hx
    exact index_lt_of_element? he

/-! ## Changing the members of a list -/

theorem touches_relist (t : Tree) (id : ElementId) (f : KeyedList → KeyedList) :
    Touches A V t (t.modifyElement id (relist f)) := by
  refine touches_modifyElement fun e _ => ?_
  unfold relist
  split
  · next l hl => exact ⟨rfl, fun h => h, .inl, fun hv => by cases hv⟩
  · exact ⟨rfl, fun h => h, .inl, .inl⟩

/-- The entries of a list may be others, if these are there and have the list as their parent. -/
theorem Linked.relist (h : t.Linked) {f : KeyedList → KeyedList}
    (hf : ∀ e l, t.element? id = some e → e.content = .list l → (f l).schema = l.schema ∧
      (f l).keys.Nodup ∧
      ∀ key c, (key, c) ∈ (f l).members → (key, c) ∈ l.members ∨
        ∃ ce, t.element? c = some ce ∧ ce.parent = some id) :
    (t.modifyElement id (relist f)).Linked := by
  have hchild : ∀ {p c ce}, t.element? c = some ce → ce.parent = some p →
      ∃ ce', (t.modifyElement id (Tree.relist f)).element? c = some ce' ∧ ce'.parent = some p ∧
        ce'.name = ce.name := by
    intro p c ce hce hpar
    obtain ⟨ce', hce'⟩ := Option.isSome_iff_exists.1
      ((isSome_element?_modifyElement t id (Tree.relist f) c).trans (by rw [hce]; rfl))
    obtain ⟨ce₂, hce₂, hcases⟩ := relist_cases hce'
    obtain rfl : ce = ce₂ := Option.some.inj (hce.symm.trans hce₂)
    obtain rfl | ⟨-, l, -, rfl⟩ := hcases
    · exact ⟨ce', hce', hpar, rfl⟩
    · exact ⟨_, hce', hpar, rfl⟩
  constructor
  case id_eq =>
    intro x e' he'
    obtain ⟨e, he, rfl | ⟨-, l, -, rfl⟩⟩ := relist_cases he'
    · exact h.id_eq he
    · exact (h.id_eq he :)
  case parent_lt =>
    intro x e' p he' hp
    obtain ⟨e, he, rfl | ⟨-, l, -, rfl⟩⟩ := relist_cases he'
    · exact h.parent_lt he hp
    · exact h.parent_lt he hp
  case names =>
    intro x e' he'
    obtain ⟨e, he, rfl | ⟨-, l, -, rfl⟩⟩ := relist_cases he'
    · exact h.names he
    · exact (h.names he :)
  case child =>
    intro x e' name c he' hm
    obtain ⟨e, he, rfl | ⟨-, l, hl, rfl⟩⟩ := relist_cases he'
    · obtain ⟨hcont, ce, hce, hpar, hname⟩ := h.child he hm
      obtain ⟨ce', hce', hpar', hname'⟩ := hchild hce hpar
      exact ⟨hcont, ce', hce', hpar', hname'.trans hname⟩
    · obtain ⟨hcont, -⟩ := h.child he hm
      cases hcont.symm.trans hl
  case keys =>
    intro x e' l' he' hl'
    obtain ⟨e, he, rfl | ⟨rfl, l, hl, rfl⟩⟩ := relist_cases he'
    · exact h.keys he hl'
    · obtain rfl := Content.list.inj hl'
      exact (hf e l he hl).2.1
  case entry =>
    intro x e' l' key c he' hl' hm
    have hlisted : ∃ ce, t.element? c = some ce ∧ ce.parent = some x := by
      obtain ⟨e, he, rfl | ⟨rfl, l, hl, rfl⟩⟩ := relist_cases he'
      · exact h.entry he hl' hm
      · obtain rfl := Content.list.inj hl'
        obtain hm | hnew := (hf e l he hl).2.2 key c hm
        · exact h.entry he hl hm
        · exact hnew
    obtain ⟨ce, hce, hpar⟩ := hlisted
    obtain ⟨ce', hce', hpar', -⟩ := hchild hce hpar
    exact ⟨ce', hce', hpar'⟩
  case plain =>
    intro x e' l' he' hl'
    obtain ⟨e, he, rfl | ⟨rfl, l, hl, rfl⟩⟩ := relist_cases he'
    · exact h.plain he hl'
    · obtain rfl := Content.list.inj hl'
      rw [(hf e l he hl).1]
      exact h.plain he hl

/-- A new entry is listed. -/
theorem Tended.enlisted (h : t.Tended) (l : KeyedList) (key : String) {ce : Element}
    (hce : t.element? entry = some ce) (hpar : ce.parent = some id) :
    (t.enlisted id l key entry).Tended := by
  have hlinked : (t.modifyElement id (Tree.relist (·.insert key entry))).Linked := by
    refine h.linked.relist fun e l he hl =>
      ⟨rfl, Assoc.nodup_keys_insert (h.linked.keys he hl) key entry, ?_⟩
    intro key' c hm
    obtain heq | hm := Assoc.mem_of_mem_insert hm
    · obtain ⟨-, rfl⟩ := Prod.mk.inj heq
      exact .inr ⟨ce, hce, hpar⟩
    · exact .inl hm
  have htracked : (t.modifyElement id (Tree.relist (·.insert key entry))).Tracked none :=
    h.tracked.touches (size_slots_modifyElement t id _) (touches_relist t id _)
  unfold Tree.enlisted
  split
  · obtain ⟨h₁, h₂, h₃, h₄, h₅, h₆, h₇⟩ := hlinked
    exact ⟨⟨h₁, h₂, h₃, h₄, h₅, h₆, h₇⟩, htracked.of_slots rfl⟩
  · exact ⟨hlinked, htracked⟩

theorem touches_enlisted (t : Tree) (id : ElementId) (l : KeyedList) (key : String)
    (entry : ElementId) : Touches A V t (t.enlisted id l key entry) := by
  have h := touches_relist (A := A) (V := V) t id (·.insert key entry)
  unfold enlisted
  split
  · exact h.of_slots rfl
  · exact h

/-- An entry is taken out of its list. -/
theorem Tended.withList (h : t.Tended) {l rest : KeyedList} {key : String}
    (he : t.element? id = some e) (hl : e.content = .list l)
    (htake : l.take? key = some (entry, rest)) : (t.withList id rest).Tended := by
  have hkeys := h.linked.keys he hl
  obtain ⟨hschema, hperm⟩ := KeyedList.perm_of_take hkeys htake
  refine ⟨h.linked.relist fun e' l' he' hl' => ?_,
    h.tracked.touches (size_slots_modifyElement t id _) (touches_relist t id _)⟩
  obtain rfl : e = e' := Option.some.inj (he.symm.trans he')
  obtain rfl : l = l' := Content.list.inj (hl.symm.trans hl')
  have hnodup := ((hperm.map Prod.fst).nodup_iff.1 hkeys)
  rw [List.map_cons, List.nodup_cons] at hnodup
  exact ⟨hschema, hnodup.2, fun key' c hm => .inl (hperm.mem_iff.2 (List.mem_cons_of_mem _ hm))⟩

/-! ## Adding -/

/-- A failed attempt to assign a key leaves no mark behind. -/
theorem Arrives.tryAssignKey (h : t.Arrives s id entry before) (ht : t.Tended)
    (hlt : id.index < entry.index) {pairs : List (String × String)}
    (hfields : ∀ q ∈ pairs, q.1 ∈ s.key.fields) :
    (tryAssignKey entry pairs before).Ensures t
      (fun _ t' => t'.Tended ∧ Touches Set.univ Set.univ t t' ∧ t.Shrinks t' ∧
        (t'.element? entry).isSome)
      fun _ t' => t'.Tended ∧ Touches Set.univ Set.univ t t' := by
  obtain ⟨ce, hce, -, -⟩ := h.element
  obtain ⟨hrec, hle⟩ := recorded_of_marksFrom ht.linked.parent_lt h.marks
  have hassign := h.assignKey hfields (refl_of Shrinks t) (by rw [hce]; rfl)
  have hlinked := frameStable_linked.assignStable.assignKey entry pairs t ht.linked
  have htracked := leads_assignKey tracked_setLeaf entry pairs t ht.tracked
  have hkeep : (Tree.assignKey entry pairs).Ensures t (fun _ t' => (t'.Tended ∧ t.Shrinks t'))
      fun _ t' => t'.Tended ∧ t.Shrinks t' :=
    ensures_of_rel (R := fun t t' => t'.Tended ∧ t.Shrinks t')
      ⟨⟨hlinked, htracked⟩, shrinks_assignKey entry pairs t⟩
  rw [Tree.tryAssignKey, ensures_tryCatch]
  refine (hassign.and hkeep).mono (fun _ t₁ h₁ => ?_) fun err t₁ h₁ => ?_
  · obtain ⟨⟨htouch, hentry⟩, htended, hs⟩ := h₁
    exact ⟨htended, htouch.mono (Set.subset_univ _) (Set.subset_univ _), hs, hentry⟩
  · obtain ⟨htouch, htended, hs⟩ := h₁
    have hwide : Touches Set.univ Set.univ t t₁ :=
      htouch.mono (Set.subset_univ _) (Set.subset_univ _)
    have hremove :=
      ((gone_of_removeSubtree entry t₁).and ((tended_removeSubtree entry).keeps htended)).and
      (((touches_removeSubtree (A := ∅) (V := ∅) entry).ensures t₁).and
        ((shrinks_removeSubtree entry).ensures t₁))
    refine (hremove.mono (fun _ t₂ h₂ => h₂) fun err t₂ h₂ => ?_).bind fun _ t₂ h₂ => ?_
    · exact ⟨h₂.1.2, trans_of (Touches _ _) hwide h₂.2.1.of_empty⟩
    obtain ⟨⟨hgone, htended₂⟩, htouch₂, hs₂⟩ := h₂
    have hs₂ := trans_of Shrinks hs hs₂
    have hrestoring : t.Restoring entry before t₂ :=
      { touches := by
          have hall := trans_of (Touches _ _) htouch htouch₂.of_empty
          refine ⟨hall.size_le, fun {x e'} hlt he' => ?_⟩
          obtain ⟨e, he, hpar, hkeep, hmark, hval⟩ := hall.element hlt he'
          refine ⟨e, he, hpar, hkeep, fun hc => (hmark hc).imp_right fun hin => ?_, hval⟩
          obtain rfl | hin := hin
          · rw [hgone] at he'
            cases he'
          · exact hin
        size := hs₂.size
        gone := hgone
        above := fun _ he hc hq hqe => (htended₂.tracked.above he hc hq hqe).resolve_right (by simp)
        assigned := fun he hv => (htended₂.tracked.assigned he hv).resolve_right (by simp) }
    have hlinked₂ := frameStable_linked.assignStable.restoreMarks before t₂ htended₂.linked
    have hrestore := (hrestoring.restoreMarks ht.linked ht.tracked hrec
      fun x hx => Nat.lt_of_le_of_lt (hle x hx) hlt).and
      (ensures_of_rel (R := fun _ t' => t'.Linked) hlinked₂)
    refine (hrestore.mono (fun _ t₃ h₃ => h₃) fun err t₃ h₃ => ?_).bind fun _ t₃ h₃ => ?_
    · obtain ⟨⟨rest, hrest⟩, hl₃⟩ := h₃
      exact ⟨⟨hl₃, hrest.tracked ht.tracked⟩, hrest.touches.mono (Set.subset_univ _)
        (Set.subset_univ _)⟩
    · obtain ⟨⟨rest, hrest⟩, hl₃⟩ := h₃
      exact ⟨⟨hl₃, hrest.tracked ht.tracked⟩, hrest.touches.mono (Set.subset_univ _)
        (Set.subset_univ _)⟩

theorem tended_addEntry (id : ElementId) (key : Option String) :
    Leads (Given Tended (Touches Set.univ Set.univ)) (addEntry id key) := by
  intro t h
  refine rel_of_ensures (R := fun t t' => t'.Tended ∧ Touches Set.univ Set.univ t t')
    (ensures_addEntry (fun _ => ⟨h, refl_of (Touches _ _) t⟩)
      fun {p e l key' parts path} hp he hl _ => ?_)
  have hplain : l.schema.PlainThroughout := h.linked.plain he hl
  have huses : (Schema.container l.schema.entry .empty).Uses (fun _ => True)
      ListSchema.PlainThroughout := by
    rw [Schema.Uses]
    exact hplain.2.allUse
  have hbuild := ((raised_build (.container l.schema.entry .empty) (entrySpec id e path) t).and
    ((tracked_build huses).keeps ⟨h.linked, h.tracked⟩)).and
    ((touches_build (A := Set.univ) (V := Set.univ) (.container l.schema.entry .empty)
      (entrySpec id e path)).ensures t)
  refine hbuild.mono (fun entry t₁ h₁ => ?_) fun err t₁ h₁ => ⟨⟨h₁.1.2.1, h₁.1.2.2⟩, h₁.2⟩
  obtain ⟨⟨hraised, hlinked₁, htracked₁⟩, htouch₁⟩ := h₁
  refine ⟨fun _ _ => ⟨⟨hlinked₁, htracked₁⟩, htouch₁⟩, fun before hbefore => ?_⟩
  obtain ⟨ce, hce, hpar, -⟩ := hraised.element
  have harrives := hraised.arrives rfl hplain.1 hbefore
  have hlt : id.index < entry.index := by
    rw [hraised.id_eq]
    exact index_lt_of_element? he
  have hfields : ∀ q ∈ l.schema.key.fields.zip parts, q.1 ∈ l.schema.key.fields :=
    fun q hq => (List.of_mem_zip hq).1
  refine (harrives.tryAssignKey ⟨hlinked₁, htracked₁⟩ hlt hfields).mono (fun _ t₂ h₂ => ?_)
    fun _ t₂ h₂ => ⟨h₂.1, trans_of (Touches _ _) htouch₁ h₂.2⟩
  obtain ⟨htended₂, htouch₂, hs₂, hentry₂⟩ := h₂
  have htouch₂ := trans_of (Touches _ _) htouch₁ htouch₂
  refine ⟨fun _ => ⟨htended₂, htouch₂⟩, fun e₂ _ => ?_⟩
  obtain ⟨ce₂, hce₂⟩ := Option.isSome_iff_exists.1 hentry₂
  obtain ⟨ce₁, hce₁, hse⟩ := hs₂.element hce₂
  obtain rfl : ce = ce₁ := Option.some.inj (hce.symm.trans hce₁)
  have htended₃ := htended₂.enlisted l key' hce₂ ((Element.parent_of_bare hse.bare).trans hpar)
  have htouch₃ := trans_of (Touches _ _) htouch₂ (touches_enlisted t₂ id l key' entry)
  refine (ensures_of_rel (R := fun _ t' => t'.Tended ∧ Touches Set.univ Set.univ t t')
    ⟨htended₃.commit hp htouch₃, trans_of (Touches _ _) htouch₃ ?_⟩).mono (fun _ _ hd =>
      hd) fun _ _ hf => hf
  exact touches_commit (fun x _ => Set.mem_univ x) _

theorem tended_add (id : ElementId) (key : Option String) :
    Leads (Given Tended (Touches Set.univ Set.univ)) (add id key) := by
  intro t₀ h₀
  have hadd : Leads (Keeping fun t => t.Tended ∧ Touches Set.univ Set.univ t₀ t) (add id key) := by
    refine leads_add (fun event h => ⟨h.1.tell event, h.2.of_slots rfl⟩) ?_
    intro t h
    obtain ⟨htended, htouch⟩ := tended_addEntry id key t h.1
    exact ⟨htended, trans_of (Touches _ _) h.2 htouch⟩
  exact hadd t₀ ⟨h₀, refl_of (Touches _ _) t₀⟩

/-! ## Deleting -/

theorem tended_delete (id : ElementId) (key : String) :
    Leads (Given Tended (Touches Set.univ Set.univ)) (delete id key) := by
  intro t h
  refine rel_of_ensures (R := fun t t' => t'.Tended ∧ Touches Set.univ Set.univ t t')
    (ensures_delete (fun _ => ⟨h, refl_of (Touches _ _) t⟩) fun {e} he => ?_)
  have h₁ := h.tell (.deleting e.path key)
  have htouch₁ : Touches Set.univ Set.univ t (t.tell (.deleting e.path key)) := touches_of_slots rfl
  refine ⟨fun _ => ⟨h₁, htouch₁⟩, fun {p l entry rest} hp hl htake => ?_⟩
  have h₂ := h₁.withList he hl htake
  have htouch₂ : Touches Set.univ Set.univ (t.tell (.deleting e.path key))
      ((t.tell (.deleting e.path key)).withList id rest) := touches_relist _ id _
  have hremove := ((tended_removeSubtree entry).keeps h₂).and
    ((touches_removeSubtree (A := Set.univ) (V := Set.univ) entry).ensures _)
  refine hremove.mono (fun _ t₃ h₃ => ?_) fun _ t₃ h₃ =>
    ⟨h₃.1, trans_of (Touches _ _) htouch₁ (trans_of (Touches _ _) htouch₂ h₃.2)⟩
  have htouch₃ := trans_of (Touches _ _) htouch₂ h₃.2
  have hcommit := (ensures_of_rel (R := fun _ t' => t'.Tended) (h₃.1.commit hp htouch₃)).and
    ((touches_commit (A := Set.univ) (V := Set.univ) fun x _ => Set.mem_univ x).ensures t₃)
  have htouch₃ := trans_of (Touches _ _) htouch₁ htouch₃
  refine hcommit.mono (fun _ t₄ h₄ => ?_) fun _ t₄ h₄ => ⟨h₄.1, trans_of (Touches _ _) htouch₃ h₄.2⟩
  exact ⟨h₄.1.tell _, (trans_of (Touches _ _) htouch₃ h₄.2).of_slots rfl⟩

end DataTree.Tree
