import DataTree.Proofs.Ledger.Adding

/-!
# DataTree.Proofs.Ledger.Removing

The ways in which a list loses entries.

Deleting takes out the entry of a key (`held_delete`), removing an element takes it out of the
list that it is an entry of (`forgets_removeSubtree`), and unsetting empties every list that is
reached without passing through another one (`clears_unset`).
-/

namespace DataTree

open Edit Outcome

/-- The list without the entry of a key. -/
def KeyedList.without (l : KeyedList) (key : String) : KeyedList :=
  ((l.take? key).map Prod.snd).getD l

namespace Tree

variable {t t' : Tree} {id x : ElementId} {e : Element} {l : KeyedList} {p : Plan}
  {schema : Blueprint} {node : ElementId → Schema} {key : String}

theorem Shrinks.exists_list {l' : KeyedList} (h : t.Shrinks t')
    (hl' : t'.held id = some (.list l')) :
    ∃ l, t.held id = some (.list l) ∧ l'.schema = l.schema := by
  obtain ⟨e', he', hl'⟩ := held_eq_some_iff.1 hl'
  obtain ⟨e, he, hse⟩ := h.element he'
  obtain ⟨members, hl, -⟩ := hse.list hl'
  exact ⟨_, held_eq_some_iff.2 ⟨e, he, hl⟩, rfl⟩

/-! ## Deleting -/

/-- Deleting from a list whose plan can be made: either there is no entry of the key, or it is taken
out and removed, and the plan is carried out. -/
theorem ensures_delete_of_plan {done : Unit → Tree → Prop} {failed : Error → Tree → Prop}
    (he : t.element? id = some e) (hl : e.content = .list l)
    (hp : (t.tell (.deleting e.path key)).plan id none = .ok p)
    (missing : l.take? key = none → ∀ err, failed err (t.tell (.deleting e.path key)))
    (taken : ∀ {entry rest}, l.take? key = some (entry, rest) →
      (removeSubtree entry).Ensures ((t.tell (.deleting e.path key)).withList id rest)
        (fun _ t₂ => (commit p).Ensures t₂ (fun _ t₃ =>
          done () (t₃.tell (.deleted e.path key))) failed)
        failed) : (delete id key).Ensures t done failed := by
  have hlist : ∀ op, t.listFor op id = .ok l := fun _ => listFor_eq_ok_iff.2 ⟨e, he, hl⟩
  have htold : (t.tell (.deleting e.path key)).listFor "add" id = .ok l := hlist "add"
  rw [delete, listToChange, ensures_reading_bind_of (hlist _), ensures_get_bind_of he,
    ensures_changing_bind, ensures_reading_bind_of hp, ensures_reading_bind_of htold]
  split
  · next htake => exact missing htake _
  · next entry rest htake =>
    rw [ensures_bind, updateList_eq, ensures_update]
    refine ⟨fun _ _ => ?_, fun hnone => ?_⟩
    · rw [ensures_bind]
      refine (taken htake).mono (fun _ t₂ h₂ => ?_) fun _ _ hf => hf
      exact h₂.bind fun _ _ hd => hd
    · have hnone : t.element? id = none := hnone
      rw [he] at hnone
      cases hnone

/-- **Deleting from the list**: whether it succeeds or fails, the entry of the key is not in the
list any more, and nothing else has changed in it. -/
theorem held_delete (hs : Sound t ∅) (hf : t.Follows schema node) (ha : schema.root.Apart)
    (hh : t.Hooked) (hl : t.held id = some (.list l)) (key : String) :
    ((delete id key).on t).2.held id = some (.list (l.without key)) := by
  obtain ⟨e, he, hl⟩ := held_eq_some_iff.1 hl
  let told := t.tell (.deleting e.path key)
  have hs₁ : Sound told ∅ := hs.sameFrame (sameFrame_tell t _)
  have hf₁ : told.Follows schema node := hf.of_slots rfl
  have hheld : told.held id = some (.list l) := held_eq_some_iff.2 ⟨e, he, hl⟩
  obtain ⟨p, hp⟩ := exists_plan (t := told) hs₁ hh he
  refine rel_of_ensures (R := fun _ t' => t'.held id = some (.list (l.without key)))
    (ensures_delete_of_plan he hl hp (fun htake _ => ?_) fun {entry rest} htake => ?_)
  · rw [KeyedList.without, htake]
    exact hheld
  have hrest : l.without key = rest := by
    rw [KeyedList.without, htake]
    rfl
  obtain ⟨hschema, hperm⟩ := KeyedList.perm_of_take (hs.keys he hl) htake
  have hsub : rest.members.Subperm l.members :=
    (List.sublist_cons_self _ _).subperm.trans hperm.symm.subperm
  have hshr₂ : told.Shrinks (told.withList id rest) := shrinks_withList he hl hschema hsub
  obtain ⟨-, ce, hce, -, hpar, -⟩ := hs.entry he hl (hperm.mem_iff.2 List.mem_cons_self)
  have hlt := hs.parent_lt hce hpar
  have hrm := ((hs₁.takeEntry he hl htake).removePending (Set.mem_singleton entry)).and
    ((shrinks_removeSubtree entry).ensures (told.withList id rest))
  rw [Set.sdiff_self] at hrm
  refine hrm.mono (fun _ t₃ h₃ => ?_) fun _ _ hno => hno.1.elim
  obtain ⟨⟨hs₃, -, hstays⟩, hshr₃⟩ := h₃
  have he₃ : t₃.element? id = some (relist (fun _ => rest) e) := by
    rw [hstays id fun hu => absurd ((hs₁.takeEntry he hl htake).index_le_of_under hu)
      (Nat.not_le.2 hlt)]
    exact element?_modifyElement_self (t := told) he
  have hheld₃ : t₃.held id = some (.list (l.without key)) :=
    held_eq_some_iff.2 ⟨_, he₃, by rw [relist_of_list hl, hrest]⟩
  have hshr := trans_of Shrinks hshr₂ hshr₃
  have hf₃ := hf₁.shrinks hshr
  -- The plan of the list does not take the list itself.
  have hp₃ :=
    planFrom_of_bare hs₃ (hshr.thins.bareTo id) (by rw [he₃]; rfl) (fun _ hy => hy.elim) hp
  have hcommit := held_commit_of_free hs₃ hf₃.declared ((frameStable_sound ∅).plan hs₁ hp)
    (hf₃.free_self hs₃ ha he₃ hp₃)
  have hheld₄ : ((commit p).on t₃).2.held id = some (.list (l.without key)) := hcommit.trans hheld₃
  exact (ensures_of_rel (R := fun _ t' => t'.held id = some (.list (l.without key))) hheld₄).mono
    (fun _ _ h => h) fun _ _ h => h

/-! ## Removing -/

/-- Removing an element takes it out of the list that it is an entry of, and what is under it is
gone. -/
theorem forgets_removeSubtree (hs : Sound t ∅) (x : ElementId) {l' : KeyedList}
    (h : ((removeSubtree x).on t).2.held id = some (.list l')) :
    ∃ l, t.held id = some (.list l) ∧ l' = l.forget x := by
  have hself : ∀ {l}, t.held id = some (.list l) → (∀ m ∈ l.members, m.2 ≠ x) →
      ∃ l₀, t.held id = some (.list l₀) ∧ l = l₀.forget x := by
    intro l hl hno
    refine ⟨l, hl, ?_⟩
    rw [KeyedList.forget, List.filter_eq_self.2 fun m hm => decide_eq_true (hno m hm)]
  cases hx : t.element? x with
  | none =>
    rw [on_removeSubtree_of_none hx] at h
    refine hself h fun m hm hmx => ?_
    obtain ⟨e, he, hl⟩ := held_eq_some_iff.1 h
    obtain ⟨-, ce, hce, -⟩ := hs.entry he hl hm
    rw [hmx, hx] at hce
    cases hce
  | some xe =>
    obtain ⟨t', ht', hr⟩ := hs.removeSubtree hx
    rw [ht'] at h
    by_cases hu : t.Under x id
    · rw [held, hr.gone hu] at h
      cases h
    rw [held, hr.stays hu, element?_detach] at h
    split at h
    · obtain ⟨e', he', hl'⟩ := Option.map_eq_some_iff.1 h
      obtain ⟨e, he, rfl⟩ := Option.map_eq_some_iff.1 he'
      unfold Element.detach at hl'
      split at hl'
      · next hc => split at hl' <;> simp [hc] at hl'
      · next l hl =>
        refine ⟨l, held_eq_some_iff.2 ⟨e, he, hl⟩, ?_⟩
        rw [hs.id_eq hx] at hl'
        exact (Content.list.inj hl').symm
      · next hno => exact absurd hl' (hno l')
    · next hpar =>
      refine hself h fun m hm hmx => hpar ?_
      obtain ⟨e, he, hl⟩ := held_eq_some_iff.1 h
      obtain ⟨-, ce, hce, -, hcpar, -⟩ := hs.entry he hl hm
      rw [hmx] at hce
      rw [← hcpar, Option.some.inj (hx.symm.trans hce)]

/-! ## Unsetting -/

/-- Unsetting an element empties the lists within it, and no others that are still there. -/
theorem clears_unset (hs : Sound t ∅) (hd : t.Declared) (x : ElementId) {l' : KeyedList}
    (h : ((unset x).on t).2.held id = some (.list l')) :
    ∃ l, t.held id = some (.list l) ∧ l'.schema = l.schema ∧ (t.Within x id → l'.members = []) ∧
      (¬ t.Within x id → l'.members = l.members) := by
  cases hx : t.element? x with
  | none =>
    rw [on_unset_of_none hx] at h
    refine ⟨l', h, rfl, fun hw => ?_, fun _ => rfl⟩
    obtain rfl | ⟨c, ⟨xe, name, hxe, -⟩, -⟩ := Relation.ReflTransGen.cases_head_iff.1 hw
    · rw [held, hx] at h
      cases h
    · rw [hx] at hxe
      cases hxe
  | some xe =>
    cases hrun : (unset x).on t with
    | mk r t' =>
      rw [hrun] at h
      cases r with
      | error err => exact ((hs.unset hd hx).of_error hrun).elim
      | ok u => exact ((hs.unset hd hx).of_ok hrun).clears h

end Tree

end DataTree
