import DataTree.Proofs.Links.Orphans
import DataTree.Proofs.Mirror.Dangling
import DataTree.Proofs.Reference.Acyclic
import DataTree.Proofs.Registry.Log

/-!
# DataTree.Proofs.Reference.Broken

What cannot be read.

Whatever is listed in a tree of a session is there, and so is every element that is
registered (`intact_of_reaches`).  Where moreover nothing leads in a circle, reading fails
for one reason only: it comes to a pointer whose path leads to nothing, or to several
targets (`Intact.broken_of_value`).
-/

namespace DataTree

open Outcome

theorem Outcome.map_eq_error {ε α β : Type} {x : Except ε α} {f : α → β} {err : ε} :
    x.map f = .error err ↔ x = .error err := by
  cases x <;> simp [Except.map]

/-- Where a step for each item of a list fails, it fails for one of them. -/
theorem Outcome.exists_of_mapM_eq_error {ε α β : Type} {f : α → Except ε β} {as : List α} {err : ε}
    (h : as.mapM f = .error err) : ∃ a ∈ as, f a = .error err := by
  induction as with
  | nil => cases h
  | cons a as ih =>
    rw [List.mapM_cons] at h
    obtain h | ⟨b, -, h⟩ := bind_eq_error.1 h
    · exact ⟨a, List.mem_cons_self, h⟩
    · obtain h | ⟨bs, -, h⟩ := bind_eq_error.1 h
      · obtain ⟨a', ha', h'⟩ := ih h
        exact ⟨a', List.mem_cons_of_mem a ha', h'⟩
      · cases h

/-- A query is answered by what is registered at the paths that match it. -/
theorem Registry.mem_lookup_iff {r : Registry} {x : Target} {query : String}
    {caller : Option String} (h : r.Tidy) :
    x ∈ r.lookup query caller ↔
      ∃ path, Path.Matches (Path.resolve query.toList (caller.map String.toList))
      (Path.segments path.toList) ∧ x ∈ r.targetsAt path := by
  simp only [lookup_of_tidy h, List.mem_flatMap, List.mem_filter, decide_eq_true_eq]
  constructor
  · rintro ⟨path, ⟨-, hmatches⟩, hx⟩
    exact ⟨path, hmatches, hx⟩
  · rintro ⟨path, hmatches, hx⟩
    exact ⟨path, ⟨(mem_paths_iff h).2 (List.ne_nil_of_mem hx), hmatches⟩, hx⟩

namespace Tree

variable {t : Tree} {x y : ElementId} {e : Element} {slot : LeafSlot} {path : String} {n k : Nat}
  {err : Error}

/-! ## Reading on -/

/-- What reading an element goes on to: the children of a container, the entries of a list, and what
a leaf is an alias of. -/
def readsOn (t : Tree) (x : ElementId) : List ElementId :=
  match t.element? x with
  | some e =>
    match e.content with
    | .container => e.children.map Prod.snd
    | .list l => l.members.map Prod.snd
    | .leaf slot => t.pointsTo e slot.value
    | _ => []
  | none => []

/-- Reading one element comes to the other. -/
def ReadsTo (t : Tree) : ElementId → ElementId → Prop :=
  Relation.ReflTransGen fun x y => y ∈ t.readsOn x

theorem mem_readsOn_of_child (he : t.element? x = some e) (hc : e.content = .container)
    {m : String × ElementId} (hm : m ∈ e.children) : m.2 ∈ t.readsOn x := by
  simp only [readsOn, he, hc]
  exact List.mem_map_of_mem hm

theorem mem_readsOn_of_entry (he : t.element? x = some e) {l : KeyedList} (hl : e.content = .list l)
    {m : String × ElementId} (hm : m ∈ l.members) : m.2 ∈ t.readsOn x := by
  simp only [readsOn, he, hl]
  exact List.mem_map_of_mem hm

theorem mem_readsOn_of_pointer (he : t.element? x = some e) (hslot : e.content = .leaf slot)
    (hvalue : slot.value = some (.reference (.pointer path)))
    (hone : t.targetsFrom e path = [.element y]) : y ∈ t.readsOn x := by
  simp only [readsOn, he, hslot, hvalue, pointsTo]
  exact mem_aliased_iff.2 hone

/-- Nothing else is read on to. -/
theorem readsOn_cases (h : y ∈ t.readsOn x) : ∃ e, t.element? x = some e ∧
    ((∃ name, e.content = .container ∧ (name, y) ∈ e.children) ∨
      (∃ l key, e.content = .list l ∧ (key, y) ∈ l.members) ∨
      ∃ slot path, e.content = .leaf slot ∧ slot.value = some (.reference (.pointer path)) ∧
        t.targetsFrom e path = [.element y]) := by
  unfold readsOn at h
  split at h
  · next e he =>
    refine ⟨e, he, ?_⟩
    split at h
    · next hc =>
      obtain ⟨⟨name, y⟩, hm, rfl⟩ := List.mem_map.1 h
      exact .inl ⟨name, hc, hm⟩
    · next l hl =>
      obtain ⟨⟨key, y⟩, hm, rfl⟩ := List.mem_map.1 h
      exact .inr (.inl ⟨l, key, hl, hm⟩)
    · next slot hslot =>
      unfold pointsTo at h
      split at h
      · next path hvalue => exact .inr (.inr ⟨slot, path, hslot, hvalue, mem_aliased_iff.1 h⟩)
      · cases h
    · cases h
  · cases h

theorem leadsOn_of_readsOn (h : y ∈ t.readsOn x) : y ∈ t.leadsOn x := by
  obtain ⟨e, he, ⟨name, -, hm⟩ | ⟨l, key, hl, hm⟩ | ⟨slot, path, hslot, hvalue, hone⟩⟩ :=
    readsOn_cases h
  · exact mem_leadsOn_of_below he (Element.mem_below_of_child hm)
  · exact mem_leadsOn_of_below he (Element.mem_below_of_entry hl hm)
  · exact mem_leadsOn_of_pointer he hslot hvalue hone

/-! ## Where reading fails -/

/-- Reading comes to a pointer whose path leads to so many targets, and these are not one. -/
def Broken (t : Tree) (x : ElementId) (path : String) (k : Nat) : Prop :=
  ∃ y e slot, t.ReadsTo x y ∧ t.element? y = some e ∧ e.content = .leaf slot ∧
    slot.value = some (.reference (.pointer path)) ∧ k = (t.targetsFrom e path).length ∧ k ≠ 1

/-- Why reading with some fuel fails. -/
inductive Blocked (t : Tree) (n : Nat) (x : ElementId) : Error → Prop
  | missing {y : ElementId} : t.ReadsTo x y → t.element? y = none →
      Blocked t n x (.elementNotFound y)
  | broken {path : String} {k : Nat} : t.Broken x path k → Blocked t n x (.invalidPointer path k)
  | endless {y : ElementId} : ¬ t.Ends n x → Blocked t n x (.circularReference y)

/-- What reading goes on to fails for the same reason. -/
theorem Blocked.head (h : t.Blocked n y err) (hy : y ∈ t.readsOn x) : t.Blocked (n + 1) x err := by
  cases h with
  | missing hz hnone => exact .missing (.head hy hz) hnone
  | broken hbroken =>
    obtain ⟨z, e, slot, hz, hbroken⟩ := hbroken
    exact .broken ⟨z, e, slot, .head hy hz, hbroken⟩
  | endless hends => exact .endless fun h => hends (h y (leadsOn_of_readsOn hy))

theorem blocked_of_snapshotFrom (hread : t.snapshotFrom n false x = .error err) :
    t.Blocked n x err := by
  induction n generalizing x with
  | zero =>
    cases hread
    exact .endless fun h => h
  | succ n ih =>
    cases he : t.element? x with
    | none =>
      rw [snapshotFrom, element_eq_error_iff.2 ⟨he, rfl⟩] at hread
      cases hread
      exact .missing .refl he
    | some e =>
      have hbelow : ∀ {ms : List (String × ElementId)}, (∀ m ∈ ms, m.2 ∈ t.readsOn x) →
          (ms.mapM (t.readNamed n false)).map Value.map = .error err → t.Blocked (n + 1) x err := by
        intro ms hms hread
        obtain ⟨m, hm, hread⟩ := exists_of_mapM_eq_error (map_eq_error.1 hread)
        exact (ih (map_eq_error.1 hread)).head (hms m hm)
      cases hc : e.content with
      | container =>
        rw [snapshotFrom_container he hc, shownChildren_false] at hread
        exact hbelow (fun m hm => mem_readsOn_of_child he hc hm) hread
      | list l =>
        rw [snapshotFrom_list he hc] at hread
        exact hbelow (fun m hm => mem_readsOn_of_entry he hc hm) hread
      | leaf slot =>
        rw [snapshotFrom, element_eq_ok_iff.2 he] at hread
        simp only [bind, Except.bind, hc] at hread
        split at hread
        · next path hvalue =>
          split at hread
          · next y hone => exact (ih hread).head (mem_readsOn_of_pointer he hc hvalue hone)
          · cases hread
          · next hno hno' =>
            cases hread
            refine .broken ⟨x, e, slot, .refl, he, hc, hvalue, rfl, fun hone => ?_⟩
            obtain ⟨target, htarget⟩ := List.length_eq_one_iff.1 hone
            cases target with
            | element y => exact hno y htarget
            | member y v => exact hno' y v htarget
        · cases hread
        · cases hread
      | leafList l =>
        rw [snapshotFrom, element_eq_ok_iff.2 he] at hread
        simp only [bind, Except.bind, hc] at hread
        cases hread
      | custom c =>
        rw [snapshotFrom, element_eq_ok_iff.2 he] at hread
        simp only [bind, Except.bind, hc] at hread
        cases hread

/-- What reads on to something that cannot be read cannot be read. -/
theorem not_read_of_readsOn (hy : y ∈ t.readsOn x) (hno : ∀ n v, t.snapshotFrom n false y ≠ .ok v) :
    ∀ n v, t.snapshotFrom n false x ≠ .ok v := by
  intro n v hread
  cases n with
  | zero => cases hread
  | succ n =>
    have hnamed : ∀ {ms : List (String × ElementId)} {name}, (name, y) ∈ ms →
        (ms.mapM (t.readNamed n false)).map Value.map ≠ .ok v := by
      intro ms name hm hread
      obtain ⟨vs, hvs, -⟩ := map_eq_ok.1 hread
      obtain ⟨_, -, hb⟩ := exists_mem_of_mapM hvs hm
      obtain ⟨w, hw, -⟩ := map_eq_ok.1 hb
      exact hno n w hw
    obtain ⟨e, he, ⟨name, hc, hm⟩ | ⟨l, key, hl, hm⟩ | ⟨slot, path, hslot, hvalue, hone⟩⟩ :=
      readsOn_cases hy
    · rw [snapshotFrom_container he hc, shownChildren_false] at hread
      exact hnamed hm hread
    · rw [snapshotFrom_list he hl] at hread
      exact hnamed hm hread
    · rw [snapshotFrom, element_eq_ok_iff.2 he] at hread
      simp only [bind, Except.bind, hslot, hvalue, hone] at hread
      exact hno n v hread

/-- A broken pointer cannot be read, whatever the fuel, nor can what reads on to it. -/
theorem Broken.not_read (h : t.Broken x path k) : ∀ n v, t.snapshotFrom n false x ≠ .ok v := by
  obtain ⟨y, e, slot, hxy, he, hslot, hvalue, hlen, hone⟩ := h
  induction hxy using Relation.ReflTransGen.head_induction_on with
  | refl =>
    intro n v hread
    cases n with
    | zero => cases hread
    | succ n =>
      rw [snapshotFrom, element_eq_ok_iff.2 he] at hread
      simp only [bind, Except.bind, hslot, hvalue] at hread
      split at hread
      · next hfound => exact hone (hlen.trans (congrArg List.length hfound))
      · next hfound => exact hone (hlen.trans (congrArg List.length hfound))
      · cases hread
  | head hstep _ ih => exact not_read_of_readsOn hstep ih

/-! ## Listed and registered elements -/

/-- What is listed is there, and what is registered. -/
structure Intact (t : Tree) : Prop where
  tidy : t.registry.Tidy
  below : ∀ {x e c}, t.element? x = some e → c ∈ e.below → ∃ ce, t.element? c = some ce
  registered : ∀ {path x}, .element x ∈ t.registry.targetsAt path → ∃ e, t.element? x = some e

/-- Nothing is lost where every new element gets a place of its own. -/
theorem intact_of_reaches (h : Reaches Seated {} t) : t.Intact := by
  obtain ⟨hready, hplaced⟩ := placed_of_reaches (h.mono fun _ => trivial)
  have hs := sound_of_reaches_seated h
  constructor
  case tidy => exact hready.accounts.tidy
  case below =>
    intro x e c he hc
    obtain ⟨-, ce, hce, -⟩ := hs.of_mem_below he hc
    exact ⟨ce, hce⟩
  case registered =>
    intro path x hx
    obtain ⟨e, he, -⟩ := (hplaced x).exists_element hx
    exact ⟨e, he⟩

/-- What a path leads to is there. -/
theorem Intact.exists_target (h : t.Intact) (hx : .element x ∈ t.targetsFrom e path) :
    ∃ xe, t.element? x = some xe := by
  unfold targetsFrom at hx
  split at hx
  · obtain ⟨path, -, hx⟩ := (Registry.mem_lookup_iff h.tidy).1 hx
    exact h.registered hx
  · cases hx

/-- Reading goes on to nothing that is not there. -/
theorem Intact.exists_of_readsTo (h : t.Intact) (hxy : t.ReadsTo x y) (he : t.element? x = some e) :
    ∃ ye, t.element? y = some ye := by
  induction hxy with
  | refl => exact ⟨e, he⟩
  | @tail y z _ hz _ =>
    obtain ⟨ye, hye, ⟨name, -, hm⟩ | ⟨l, key, hl, hm⟩ | ⟨slot, path, -, -, hone⟩⟩ :=
      readsOn_cases hz
    · exact h.below hye (Element.mem_below_of_child hm)
    · exact h.below hye (Element.mem_below_of_entry hl hm)
    · exact h.exists_target (hone ▸ List.mem_cons_self)

/-- **What cannot be read reads on to a broken pointer**, and that is what the error names. -/
theorem Intact.broken_of_value (h : t.Intact) (hacyclic : t.Acyclic) (he : t.element? x = some e)
    (hread : t.value x = .error err) : ∃ path k, err = .invalidPointer path k ∧
      t.Broken x path k := by
  cases blocked_of_snapshotFrom hread with
  | missing hy hnone =>
    obtain ⟨ye, hye⟩ := h.exists_of_readsTo hy he
    cases hnone.symm.trans hye
  | broken hbroken => exact ⟨_, _, rfl, hbroken⟩
  | endless hends => exact absurd (hacyclic.ends he) hends

/-- An element can be read just if it does not read on to a broken pointer. -/
theorem Intact.exists_value_iff (h : t.Intact) (hacyclic : t.Acyclic) (he : t.element? x = some e) :
    (∃ v, t.value x = .ok v) ↔ ∀ path k, ¬ t.Broken x path k := by
  refine ⟨fun hread path k hbroken => ?_, fun hno => ?_⟩
  · obtain ⟨v, hv⟩ := hread
    exact hbroken.not_read _ v hv
  · cases hv : t.value x with
    | ok v => exact ⟨v, rfl⟩
    | error err =>
      obtain ⟨path, k, -, hbroken⟩ := h.broken_of_value hacyclic he hv
      exact absurd hbroken (hno path k)

end Tree

end DataTree
