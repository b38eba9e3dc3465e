import DataTree.Proofs.Contents
import DataTree.Proofs.Mirror.Counting
import DataTree.Proofs.Rollback.Accounts

/-!
# DataTree.Proofs.Mirror.Items

How often a target is registered when registrations come and go.
-/

namespace DataTree

/-- A list that has the items of another one has what is made of them. -/
theorem map_subperm {α β : Type} {xs ys : List α} (h : xs.Subperm ys) (f : α → β) :
    (xs.map f).Subperm (ys.map f) := by
  obtain ⟨zs, hp, hs⟩ := h
  exact ⟨zs.map f, hp.map f, hs.map f⟩

namespace Registry

variable {r r' : Registry} {path other : String} {x y : Target} {id : ElementId}

theorem count_eq_countP_ownedAt (r : Registry) (path : String) (x : Target) :
    r.count path x = (r.ownedAt path x.owner).countP (·.same x) := by
  rw [count, ownedAt, List.countP_filter]
  refine List.countP_congr fun y _ => ?_
  cases h : y.same x with
  | true => simp [Target.owner_eq_of_same h]
  | false => simp

/-- An element that has fewer targets has each of them less often. -/
theorem count_le_of_sublist
    (h : ∀ path, (r'.ownedAt path x.owner).Sublist (r.ownedAt path x.owner)) :
    r'.count path x ≤ r.count path x := by
  rw [count_eq_countP_ownedAt, count_eq_countP_ownedAt]
  exact (h path).countP_le

theorem count_register (r : Registry) (path other : String) (x y : Target) :
    (r.register other y).count path x
      = r.count path x + if Registration.hits path x (other, y) then 1 else 0 := by
  rw [count, count]
  by_cases hp : path = other
  · subst hp
    simp [targetsAt_register_self, Registration.hits]
  · simp [targetsAt_register_of_ne hp, Registration.hits, Ne.symm hp]

theorem sublist_unregisterTarget (r : Registry) (path other : String) (x : Target) :
    ((r.unregisterTarget path x).targetsAt other).Sublist (r.targetsAt other) := by
  unfold unregisterTarget
  by_cases hp : other = path
  · subst hp
    split
    · rw [targetsAt_unregisterFirst_self]
      exact List.eraseP_sublist
    · rw [targetsAt_unregister_self]
      exact List.nil_sublist _
  · split
    · rw [targetsAt_unregisterFirst_of_ne hp]
    · rw [targetsAt_unregister_of_ne hp]

theorem ownedAt_sublist_unregisterTarget (r : Registry) (path other : String) (x : Target)
    (id : ElementId) :
    ((r.unregisterTarget path x).ownedAt other id).Sublist (r.ownedAt other id) :=
  (r.sublist_unregisterTarget path other x).filter _

/-- Dropping a target that is registered takes one registration of it away. -/
theorem count_unregisterTarget_le (r : Registry) (path other : String) (hs : r.removal = .single)
    (hx : x.Proper) (hy : y.Proper) :
    (r.unregisterTarget other y).count path x
      ≤ r.count path x - if Registration.hits path x (other, y) then 1 else 0 := by
  have hun : r.unregisterTarget other y = r.unregisterFirst other y := by rw [unregisterTarget, hs]
  by_cases hhit : Registration.hits path x (other, y) = true
  · simp only [Registration.hits, Bool.and_eq_true, beq_iff_eq] at hhit
    obtain ⟨rfl, hyx⟩ := hhit
    rw [hun, count, count, targetsAt_unregisterFirst_self,
      if_pos (by simp [Registration.hits, hyx])]
    by_cases hex : ∃ z ∈ r.targetsAt other, z.same y = true
    · obtain ⟨z, hz, hzy⟩ := hex
      obtain ⟨w, before, after, -, hwy, hsplit, herase⟩ :=
        List.exists_of_eraseP (p := (·.same y)) hz hzy
      have hwx : w.same x = true := Target.same_trans hwy hyx
      rw [herase, hsplit, List.countP_append, List.countP_append, List.countP_cons, if_pos hwx]
      omega
    · -- What is not registered cannot be dropped; but then there is nothing to count either.
      have hzero : (r.targetsAt other).countP (·.same x) = 0 := by
        refine List.countP_eq_zero.2 fun z hz hzx => hex ⟨z, hz, ?_⟩
        exact Target.same_trans hzx (Target.same_symm hy hx hyx)
      exact Nat.le_trans (List.eraseP_sublist.countP_le) (by omega)
  · rw [if_neg hhit, Nat.sub_zero]
    exact count_le_of_sublist fun _ => r.ownedAt_sublist_unregisterTarget _ _ _ _

end Registry

end DataTree
