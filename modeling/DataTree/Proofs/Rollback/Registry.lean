import DataTree.Proofs.Path.Announced
import DataTree.Proofs.Tables

/-!
# DataTree.Proofs.Rollback.Registry

What a registry holds on behalf of which elements.

Every target is registered on behalf of an element, its owner.  `r.before n` is what is
left of the registry `r` without the targets whose owners have the slot `n` or a later
one.  Registering and dropping targets of such owners does not show in it
(`Tidy.before_register`, `Tidy.before_unregister`), and if there are none, it is the
whole registry (`Tidy.before_eq_self`).
-/

namespace DataTree

namespace Target

/-- The element that is registered, or that has the registered item. -/
def owner : Target → ElementId
  | element id => id
  | member id _ => id

theorem owner_eq_of_same {x y : Target} (h : x.same y = true) : x.owner = y.owner := by
  cases x <;> cases y <;> simp_all [same, owner]

end Target

namespace Registry

variable {r : Registry} {path other : String} {x : Target} {id : ElementId} {n : Nat}

/-! ## Tidy registries -/

/-- Single registrations are dropped, no path occurs twice, and every path holds something. -/
structure Tidy (r : Registry) : Prop where
  single : r.removal = .single
  nodup : (Assoc.keys r.entries).Nodup
  filled : ∀ {path targets}, (path, targets) ∈ r.entries → targets ≠ []

theorem tidy_empty : Tidy {} := ⟨rfl, List.nodup_nil, fun h => (by cases h)⟩

/-- Registering keeps a registry tidy. -/
theorem Tidy.register (h : r.Tidy) (path : String) (x : Target) : (r.register path x).Tidy where
  single := h.single
  nodup := Assoc.nodup_keys_insert h.nodup _ _
  filled := fun hm => by
    obtain heq | hm := Assoc.mem_of_mem_insert hm
    · rw [(Prod.mk.inj heq).2]
      exact List.append_ne_nil_of_right_ne_nil _ (List.cons_ne_nil x [])
    · exact h.filled hm

/-- In a tidy registry one registration is dropped at most. -/
theorem Tidy.unregisterTarget_eq (h : r.Tidy) (path : String) (x : Target) :
    r.unregisterTarget path x = r.unregisterFirst path x := by
  rw [unregisterTarget, h.single]

/-- So does unregistering. -/
theorem Tidy.unregister (h : r.Tidy) (path : String) (x : Target) :
    (r.unregisterTarget path x).Tidy := by
  rw [h.unregisterTarget_eq]
  unfold unregisterFirst
  split
  · exact h
  · split
    · exact
        { single := h.single
          nodup := h.nodup.sublist (List.filter_sublist.map Prod.fst)
          filled := fun hm => h.filled (Assoc.mem_erase_iff.1 hm).1 }
    · next targets _ hrest =>
      exact
        { single := h.single
          nodup := Assoc.nodup_keys_insert h.nodup _ _
          filled := fun hm => by
            obtain heq | hm := Assoc.mem_of_mem_insert hm
            · rw [(Prod.mk.inj heq).2]
              exact hrest
            · exact h.filled hm }

/-- What is registered was so before. -/
theorem Tidy.mem_of_mem_unregister {y : Target} (h : r.Tidy)
    (hy : y ∈ (r.unregisterTarget path x).targetsAt other) : y ∈ r.targetsAt other := by
  rw [h.unregisterTarget_eq] at hy
  by_cases hp : other = path
  · subst hp
    rw [targetsAt_unregisterFirst_self] at hy
    exact List.mem_of_mem_eraseP hy
  · rwa [targetsAt_unregisterFirst_of_ne hp] at hy

/-! ## What is registered on behalf of one element -/

/-- The targets at a path that an element owns. -/
def ownedAt (r : Registry) (path : String) (id : ElementId) : List Target :=
  (r.targetsAt path).filter fun x => x.owner = id

theorem mem_ownedAt : x ∈ r.ownedAt path id ↔ x ∈ r.targetsAt path ∧ x.owner = id := by
  simp [ownedAt]

theorem ownedAt_register (r : Registry) (path other : String) (x : Target) (id : ElementId) :
    (r.register path x).ownedAt other id
      = r.ownedAt other id ++ if other = path ∧ x.owner = id then [x] else [] := by
  unfold ownedAt
  by_cases hp : other = path
  · subst hp
    rw [targetsAt_register_self, List.filter_append]
    by_cases hx : x.owner = id <;> simp [hx]
  · rw [targetsAt_register_of_ne hp]
    simp [hp]

/-- Erasing a target does not show among those of other owners. -/
theorem filter_eraseP_same {f : Target → Bool} (h : ∀ y : Target, y.owner = x.owner → f y = false)
    (targets : List Target) : (targets.eraseP (·.same x)).filter f = targets.filter f := by
  induction targets with
  | nil => rfl
  | cons y ys ih =>
    rw [List.eraseP_cons]
    cases hy : y.same x with
    | true => rw [cond_true, List.filter_cons_of_neg (by simp [h y (Target.owner_eq_of_same hy)])]
    | false => rw [cond_false, List.filter_cons, List.filter_cons, ih]

/-- Dropping a target of another owner. -/
theorem ownedAt_unregister_of_ne (h : r.Tidy) (hx : x.owner ≠ id) :
    (r.unregisterTarget path x).ownedAt other id = r.ownedAt other id := by
  rw [h.unregisterTarget_eq, ownedAt, ownedAt]
  by_cases hp : other = path
  · subst hp
    rw [targetsAt_unregisterFirst_self]
    exact filter_eraseP_same (fun y hy => by simp [hy, hx]) _
  · rw [targetsAt_unregisterFirst_of_ne hp]

/-- Dropping a target of the same owner. -/
theorem ownedAt_unregister_self (h : r.Tidy) (hx : x.owner = id) :
    (r.unregisterTarget path x).ownedAt path id = (r.ownedAt path id).eraseP (·.same x) := by
  rw [h.unregisterTarget_eq, ownedAt, ownedAt, targetsAt_unregisterFirst_self, List.eraseP_filter]
  congr 2
  funext y
  cases hy : y.same x with
  | true => simp [Target.owner_eq_of_same hy, hx]
  | false => simp

/-- Unregistering at one path changes nothing at another. -/
theorem ownedAt_unregister_of_path (h : r.Tidy) (hp : other ≠ path) :
    (r.unregisterTarget path x).ownedAt other id = r.ownedAt other id := by
  rw [h.unregisterTarget_eq, ownedAt, ownedAt, targetsAt_unregisterFirst_of_ne hp]

/-! ## Forgetting what came later -/

/-- The registrations of owners in slots before `n`. -/
def before (r : Registry) (n : Nat) : Registry :=
  { r with
    entries := (r.entries.map fun p => (p.1, p.2.filter fun x => x.owner.index < n)).filter
      fun p => !p.2.isEmpty }

theorem before_congr {entries : List (String × List Target)}
    (h : (entries.map fun p => (p.1, p.2.filter fun x => x.owner.index < n)).filter
        (fun p => !p.2.isEmpty) = (r.before n).entries) :
    ({ r with entries } : Registry).before n = r.before n := by
  rw [before, before]
  exact congrArg _ h

/-- Other targets at a path do not show if those of the early owners are the same. -/
theorem before_insert {targets : List Target}
    (h : (targets.filter fun x => x.owner.index < n)
      = (r.targetsAt path).filter fun x => x.owner.index < n) :
    ({ r with entries := Assoc.insert path targets r.entries } : Registry).before n =
      r.before n := by
  refine before_congr ?_
  rw [targetsAt] at h
  rw [before]
  generalize r.entries = entries at h
  induction entries with
  | nil =>
    rw [Assoc.insert, List.map_singleton, h]
    rfl
  | cons p rest ih =>
    obtain ⟨name, ts⟩ := p
    by_cases hn : name = path
    · have hts : (targets.filter fun x => x.owner.index < n) = ts.filter fun x =>
          x.owner.index < n := by
        simpa [Assoc.get?, hn] using h
      rw [Assoc.insert, if_pos hn, List.map_cons, List.map_cons, hts, hn]
    · have hrest := ih (by simpa [Assoc.get?, hn] using h)
      rw [Assoc.insert, if_neg hn, List.map_cons, List.map_cons, List.filter_cons,
        List.filter_cons, hrest]

/-- A path that holds nothing of early owners may go. -/
theorem before_erase
    (h : ∀ targets, (path, targets) ∈ r.entries →
      (targets.filter fun x => x.owner.index < n) = []) :
    ({ r with entries := Assoc.erase path r.entries } : Registry).before n = r.before n := by
  refine before_congr ?_
  rw [before]
  generalize r.entries = entries at h
  induction entries with
  | nil => rfl
  | cons p rest ih =>
    obtain ⟨name, ts⟩ := p
    have hrest := ih fun targets hm => h targets (List.mem_cons_of_mem _ hm)
    by_cases hn : name = path
    · subst hn
      rw [Assoc.erase_cons_self, hrest, List.map_cons, h ts List.mem_cons_self]
      rfl
    · rw [Assoc.erase_cons_of_ne hn, List.map_cons, List.map_cons, List.filter_cons,
        List.filter_cons, hrest]

/-- Registering on behalf of a late owner does not show. -/
theorem before_register (hx : n ≤ x.owner.index) : (r.register path x).before n = r.before n := by
  refine before_insert ?_
  rw [List.filter_append]
  simp [targetsAt, Nat.not_lt.2 hx]

/-- Neither does dropping such a registration. -/
theorem Tidy.before_unregister (h : r.Tidy) (hx : n ≤ x.owner.index) :
    (r.unregisterTarget path x).before n = r.before n := by
  have herase := filter_eraseP_same (x := x) (f := fun y => y.owner.index < n) fun y hy => by
    simpa [hy] using hx
  rw [h.unregisterTarget_eq]
  unfold unregisterFirst
  split
  · rfl
  · next targets hget =>
    split
    · next hnil =>
      refine before_erase fun targets' hm => ?_
      obtain rfl : targets = targets' :=
        Assoc.eq_of_mem_of_mem h.nodup (Assoc.mem_of_get?_eq_some hget) hm
      rw [← herase targets, hnil]
      rfl
    · refine before_insert ?_
      rw [herase, targetsAt, hget]
      rfl

/-- If no owner is late, nothing is forgotten. -/
theorem Tidy.before_eq_self (h : r.Tidy)
    (hall : ∀ path x, x ∈ r.targetsAt path → x.owner.index < n) : r.before n = r := by
  have hmem : ∀ p ∈ r.entries, ∀ x ∈ p.2, x.owner.index < n := by
    intro p hp x hx
    refine hall p.1 x ?_
    rw [targetsAt, Assoc.get?_eq_some_of_mem h.nodup hp]
    exact hx
  have hmap : (r.entries.map fun p => (p.1, p.2.filter fun x => x.owner.index < n)) =
      r.entries := by
    refine (List.map_congr_left fun p hp => ?_).trans (List.map_id' r.entries)
    rw [List.filter_eq_self.2 fun x hx => decide_eq_true (hmem p hp x hx)]
  rw [before, hmap, List.filter_eq_self.2 fun p hp => ?_]
  have hne : p.2 ≠ [] := h.filled hp
  simpa using hne

end Registry

end DataTree
