import DataTree.Assoc
import Mathlib.Data.List.Nodup
import Mathlib.Data.List.Perm.Basic

/-!
# DataTree.Proofs.Tables

Tables as sets of pairs.  In a table that has every name once, looking up a name
finds the only pair of that name, and both ways of erasing a name leave the same
pairs.
-/

namespace DataTree.Assoc

variable {α : Type} {k name : String} {v w : α} {t : List (String × α)}

/-! ## Looking up -/

theorem mem_of_get?_eq_some (h : get? k t = some v) : (k, v) ∈ t := by
  induction t with
  | nil => cases h
  | cons e rest ih =>
    obtain ⟨name, w⟩ := e
    rw [get?] at h
    split at h
    · next hn =>
      obtain rfl := Option.some.inj h
      rw [hn]
      exact List.mem_cons_self
    · exact List.mem_cons_of_mem _ (ih h)

theorem mem_keys_of_mem (h : (k, v) ∈ t) : k ∈ keys t := List.mem_map_of_mem h

theorem get?_eq_none_iff : get? k t = none ↔ k ∉ keys t := by
  induction t with
  | nil => simp [keys]
  | cons e rest ih =>
    obtain ⟨name, w⟩ := e
    by_cases hn : name = k
    · simp [get?, keys, hn]
    · have hk : ¬ k = name := fun h => hn h.symm
      simpa [get?, keys, hn, hk] using ih

theorem contains_eq_false_iff : contains k t = false ↔ k ∉ keys t := by
  rw [contains, Option.isSome_eq_false_iff, Option.isNone_iff_eq_none, get?_eq_none_iff]

/-- Every pair is found under its name. -/
theorem get?_eq_some_of_mem (hn : (keys t).Nodup) (h : (k, v) ∈ t) : get? k t = some v := by
  induction t with
  | nil => cases h
  | cons e rest ih =>
    obtain ⟨name, w⟩ := e
    rw [keys, List.map_cons, List.nodup_cons] at hn
    rw [get?]
    obtain h | h := List.mem_cons.1 h
    · obtain ⟨rfl, rfl⟩ := Prod.mk.inj h
      rw [if_pos rfl]
    · have hne : ¬ name = k := by
        intro hk
        subst hk
        exact hn.1 (mem_keys_of_mem h)
      rw [if_neg hne]
      exact ih hn.2 h

/-- A name has one value. -/
theorem eq_of_mem_of_mem (hn : (keys t).Nodup) (h : (k, v) ∈ t) (h' : (k, w) ∈ t) : v = w := by
  have hv := get?_eq_some_of_mem hn h
  rw [get?_eq_some_of_mem hn h'] at hv
  exact (Option.some.inj hv).symm

/-! ## Entering -/

/-- A new name comes last. -/
theorem insert_eq_append (h : k ∉ keys t) (v : α) : insert k v t = t ++ [(k, v)] := by
  induction t with
  | nil => rfl
  | cons e rest ih =>
    obtain ⟨name, w⟩ := e
    rw [keys, List.map_cons, List.mem_cons, not_or] at h
    rw [insert, if_neg (Ne.symm h.1), ih h.2, List.cons_append]

/-- A table never gets a name twice. -/
theorem nodup_keys_insert (h : (keys t).Nodup) (k : String) (v : α) :
    (keys (insert k v t)).Nodup := by
  rw [keys_insert]
  split
  · exact h
  · next hc =>
    rw [Bool.not_eq_true, contains_eq_false_iff] at hc
    exact List.Nodup.append h (List.nodup_singleton k) (by simpa using hc)

theorem mem_of_mem_insert (h : (name, w) ∈ insert k v t) : (name, w) = (k, v) ∨ (name, w) ∈ t := by
  induction t with
  | nil => exact .inl (List.mem_singleton.1 h)
  | cons e rest ih =>
    obtain ⟨name', w'⟩ := e
    rw [insert] at h
    split at h
    · obtain h | h := List.mem_cons.1 h
      · exact .inl h
      · exact .inr (List.mem_cons_of_mem _ h)
    · obtain h | h := List.mem_cons.1 h
      · exact .inr (h ▸ List.mem_cons_self)
      · obtain h | h := ih h
        · exact .inl h
        · exact .inr (List.mem_cons_of_mem _ h)

/-! ## Erasing -/

theorem mem_erase_iff {p : String × α} : p ∈ erase k t ↔ p ∈ t ∧ p.1 ≠ k := by
  simp [erase]

/-- Nothing is erased where the name is missing. -/
theorem erase_of_not_mem_keys (h : k ∉ keys t) : erase k t = t := by
  refine List.filter_eq_self.2 fun p hp => decide_eq_true ?_
  intro hpk
  exact h (hpk ▸ mem_keys_of_mem hp)

theorem erase_cons_self (k : String) (v : α) (t : List (String × α)) :
    erase k ((k, v) :: t) = erase k t := List.filter_cons_of_neg (by simp)

theorem erase_cons_of_ne (h : name ≠ k) (v : α) (t : List (String × α)) :
    erase k ((name, v) :: t) = (name, v) :: erase k t :=
  List.filter_cons_of_pos (by simpa using h)

/-- Erasing a name that is there takes away its pair. -/
theorem perm_cons_erase (hn : (keys t).Nodup) (h : get? k t = some v) :
    t.Perm ((k, v) :: erase k t) := by
  induction t with
  | nil => cases h
  | cons e rest ih =>
    obtain ⟨name, w⟩ := e
    rw [keys, List.map_cons, List.nodup_cons] at hn
    rw [get?] at h
    split at h
    · next hk =>
      obtain rfl := Option.some.inj h
      subst hk
      rw [erase_cons_self, erase_of_not_mem_keys hn.1]
    · next hk =>
      rw [erase_cons_of_ne hk]
      exact ((ih hn.2 h).cons _).trans (.swap _ _ _)

/-- Another pair may take the place of the erased one. -/
theorem map_replace_perm (hn : (keys t).Nodup) (h : k ∈ keys t) (p : String × α) :
    (t.map fun e => if e.1 = k then p else e).Perm (p :: erase k t) := by
  induction t with
  | nil => cases h
  | cons e rest ih =>
    obtain ⟨name, w⟩ := e
    rw [keys, List.map_cons, List.nodup_cons] at hn
    rw [List.map_cons]
    by_cases hk : name = k
    · subst hk
      have hsame : rest.map (fun e => if e.1 = name then p else e) = rest := by
        refine (List.map_congr_left fun e he => if_neg ?_).trans (List.map_id' rest)
        intro hen
        exact hn.1 (hen ▸ mem_keys_of_mem he)
      rw [if_pos rfl, hsame, erase_cons_self, erase_of_not_mem_keys hn.1]
    · rw [keys, List.map_cons, List.mem_cons] at h
      rw [if_neg hk, erase_cons_of_ne hk]
      exact ((ih hn.2 (h.resolve_left (Ne.symm hk))).cons _).trans (.swap _ _ _)

/-- What is left has been there before. -/
theorem mem_of_mem_swapErase {p : String × α} (h : p ∈ swapErase k t) : p ∈ t := by
  unfold swapErase at h
  split at h
  · exact h
  · next last hlast =>
    split at h
    · exact List.dropLast_subset t h
    · split at h
      · obtain ⟨q, hq, hp⟩ := List.mem_map.1 h
        split at hp
        · exact hp ▸ List.mem_of_getLast? hlast
        · exact hp ▸ List.dropLast_subset t hq
      · exact h

/-- Both ways of erasing leave the same pairs. -/
theorem swapErase_perm_erase (hn : (keys t).Nodup) (k : String) :
    (swapErase k t).Perm (erase k t) := by
  obtain rfl | ⟨init, ⟨name, w⟩, rfl⟩ := List.eq_nil_or_concat' t
  · rfl
  rw [keys, List.map_append, List.nodup_append_comm, List.map_singleton,
    List.singleton_append, List.nodup_cons] at hn
  obtain ⟨hlast, hinit⟩ := hn
  have hsplit : erase k (init ++ [(name, w)]) = erase k init ++ erase k [(name, w)] :=
    List.filter_append init _
  rw [swapErase, List.getLast?_concat, List.dropLast_concat, hsplit]
  simp only
  split
  · next hk =>
    subst hk
    rw [erase_cons_self, erase_of_not_mem_keys hlast]
    simp [erase]
  · next hk =>
    rw [erase_cons_of_ne hk]
    split
    · next hc =>
      have hmem : k ∈ keys init := by
        by_contra hno
        have hall : k ∉ keys (init ++ [(name, w)]) := by
          rw [keys, List.map_append, List.mem_append, not_or]
          exact ⟨hno, by simpa using Ne.symm hk⟩
        rw [contains_eq_false_iff.2 hall] at hc
        cases hc
      exact (map_replace_perm hinit hmem _).trans (List.perm_append_singleton _ _).symm
    · next hc =>
      rw [Bool.not_eq_true, contains_eq_false_iff, keys, List.map_append, List.mem_append,
        not_or] at hc
      rw [erase_of_not_mem_keys hc.1]
      rfl

end DataTree.Assoc
