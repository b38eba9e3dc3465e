import DataTree.Proofs.Values
import DataTree.Registry

/-!
# DataTree.Proofs.Mirror.Counting

A registry as a collection of registrations.  `r.Lists regs` says that the registry
`r` has registered exactly what is in `regs`, each path and target as often as it
occurs there.  Targets count as equal when their values are.
-/

namespace DataTree

namespace Target

/-- The value of a member is proper. -/
def Proper : Target → Prop
  | element _ => True
  | member _ v => v.Proper

theorem same_refl {x : Target} (hx : x.Proper) : x.same x = true := by
  cases x with
  | element id => simp [same]
  | member owner v => simp [same, Value.same_refl hx]

theorem same_symm {x y : Target} (hx : x.Proper) (hy : y.Proper) (h : x.same y = true) :
    y.same x = true := by
  cases x <;> cases y <;> simp only [same, Bool.and_eq_true, beq_iff_eq, Bool.false_eq_true] at h
  · simp [same, h]
  · simp [same, h.1, Value.same_symm hx hy h.2]

theorem same_trans {x y z : Target} (h : x.same y = true) (h' : y.same z = true) :
    x.same z = true := by
  cases x <;> cases y <;> simp only [same, Bool.and_eq_true, beq_iff_eq, Bool.false_eq_true] at h
  · rw [h]
    exact h'
  · cases z <;> simp only [same, Bool.and_eq_true, beq_iff_eq, Bool.false_eq_true] at h'
    simp [same, h.1, h'.1, Value.same_trans h.2 h'.2]

/-- Equal targets equal the same targets. -/
theorem same_congr {x y : Target} (hx : x.Proper) (hy : y.Proper) (h : x.same y = true)
    (z : Target) : x.same z = y.same z := by
  rw [Bool.eq_iff_iff]
  exact ⟨same_trans (same_symm hx hy h), same_trans h⟩

end Target

/-- A target under the path that it is registered at. -/
abbrev Registration := String × Target

/-- Whether a registration is one of a target at a path. -/
def Registration.hits (path : String) (target : Target) (r : Registration) : Bool :=
  r.1 == path && r.2.same target

namespace Registry

/-- How often a target is registered at a path. -/
def count (r : Registry) (path : String) (target : Target) : Nat :=
  (r.targetsAt path).countP (·.same target)

/-- The registrations of a registry are the given ones. -/
structure Lists (r : Registry) (regs : List Registration) : Prop where
  single : r.removal = .single
  proper : ∀ {path x}, x ∈ r.targetsAt path → x.Proper
  counted : ∀ path target, r.count path target = regs.countP (Registration.hits path target)

variable {r : Registry} {regs regs' : List Registration} {path : String} {x : Target}

theorem lists_empty : Lists {} [] :=
  ⟨rfl, fun hx => (by cases hx), fun _ _ => rfl⟩

/-- The order of registrations does not matter. -/
theorem Lists.perm (h : r.Lists regs) (hp : regs.Perm regs') : r.Lists regs' :=
  ⟨h.single, h.proper, fun path target => by rw [h.counted, hp.countP_eq]⟩

theorem Lists.register (h : r.Lists regs) (hx : x.Proper) :
    (r.register path x).Lists ((path, x) :: regs) := by
  constructor
  case single => exact h.single
  case proper =>
    intro path' y hy
    obtain hy | ⟨-, rfl⟩ := mem_targetsAt_register_iff.1 hy
    · exact h.proper hy
    · exact hx
  case counted =>
    intro path' target
    have hc := h.counted path' target
    rw [count] at hc
    rw [count, List.countP_cons]
    by_cases hp : path' = path
    · subst hp
      rw [targetsAt_register_self, List.countP_append, hc, List.countP_singleton]
      simp [Registration.hits]
    · have hno : (path == path') = false := beq_eq_false_iff_ne.2 (Ne.symm hp)
      rw [targetsAt_register_of_ne hp, hc]
      simp [Registration.hits, hno]

/-! ## Dropping a registration -/

theorem targetsAt_unregisterFirst_self (r : Registry) (path : String) (x : Target) :
    (r.unregisterFirst path x).targetsAt path = (r.targetsAt path).eraseP (·.same x) := by
  unfold unregisterFirst
  cases hg : Assoc.get? path r.entries with
  | none => simp [targetsAt, hg]
  | some targets =>
    have ht : r.targetsAt path = targets := by simp [targetsAt, hg]
    rw [ht]
    simp only
    split
    · next he => rw [he, targetsAt_unregister_self]
    · simp [targetsAt]

theorem targetsAt_unregisterFirst_of_ne {other : String} (h : other ≠ path) (r : Registry)
    (x : Target) : (r.unregisterFirst path x).targetsAt other = r.targetsAt other := by
  unfold unregisterFirst
  split
  · rfl
  · split
    · rw [targetsAt_unregister_of_ne h]
    · simp [targetsAt, Assoc.get?_insert_of_ne h]

/-- A registration that is there can be dropped, and nothing else goes with it. -/
theorem Lists.unregister (h : r.Lists ((path, x) :: regs)) (hx : x.Proper) :
    (r.unregisterTarget path x).Lists regs := by
  have hun : r.unregisterTarget path x = r.unregisterFirst path x := by
    rw [unregisterTarget, h.single]
  have hcount := h.counted path x
  have hhit : Registration.hits path x (path, x) = true := by
    simp [Registration.hits, Target.same_refl hx]
  rw [count, List.countP_cons, if_pos hhit] at hcount
  have hpos : 0 < (r.targetsAt path).countP (·.same x) := by omega
  obtain ⟨z, hz, hzx⟩ := List.countP_pos_iff.1 hpos
  obtain ⟨y, before, after, -, hyx, hsplit, herase⟩ :=
    List.exists_of_eraseP (p := (·.same x)) hz hzx
  have hmem : y ∈ r.targetsAt path := by
    rw [hsplit]
    exact List.mem_append_right _ List.mem_cons_self
  have hy := h.proper hmem
  rw [hun]
  constructor
  case single =>
    rw [← h.single]
    unfold unregisterFirst
    split
    · rfl
    · split <;> rfl
  case proper =>
    intro path' w hw
    by_cases hp : path' = path
    · subst hp
      rw [targetsAt_unregisterFirst_self] at hw
      exact h.proper (List.mem_of_mem_eraseP hw)
    · rw [targetsAt_unregisterFirst_of_ne hp] at hw
      exact h.proper hw
  case counted =>
    intro path' target
    have hc := h.counted path' target
    rw [count, List.countP_cons] at hc
    rw [count]
    by_cases hp : path' = path
    · subst hp
      have hsame := Target.same_congr hy hx hyx target
      rw [targetsAt_unregisterFirst_self, herase, List.countP_append]
      rw [hsplit, List.countP_append, List.countP_cons, hsame] at hc
      simp only [Registration.hits, beq_self_eq_true, Bool.true_and] at hc ⊢
      omega
    · have hno : (path == path') = false := beq_eq_false_iff_ne.2 (Ne.symm hp)
      rw [targetsAt_unregisterFirst_of_ne hp, hc]
      simp [Registration.hits, hno]

end Registry

end DataTree
