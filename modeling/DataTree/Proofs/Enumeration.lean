import DataTree.Proofs.Tables
import DataTree.Scalar.Enumeration
import Mathlib.Data.Nat.Nth

/-!
# DataTree.Proofs.Enumeration

The numbers of an enumeration.

Numbering goes through the entries with the numbers in use and a number below which none is
free, and goes on searching from there.  What it finds for the `k`-th entry without a number
is the `k`-th natural number that is given nowhere (`number_eq`), as if every search had
started from zero (`numbers_least_free`).  An entry behind it may have been given a number that
the search then passes over.
-/

namespace DataTree

/-- Entering pairs of different names lists them as they are. -/
theorem Assoc.ofList_eq_self {α : Type} {t : List (String × α)} (h : (Assoc.keys t).Nodup) :
    Assoc.ofList t = t := by
  have hfold : ∀ (pairs done : List (String × α)), (Assoc.keys (done ++ pairs)).Nodup →
      pairs.foldl (fun t e => Assoc.insert e.1 e.2 t) done = done ++ pairs := by
    intro pairs
    induction pairs with
    | nil => simp
    | cons e pairs ih =>
      intro done hn
      have hnew : e.1 ∉ Assoc.keys done := by
        rw [Assoc.keys, List.map_append, List.map_cons, List.nodup_append] at hn
        exact fun hmem => hn.2.2 _ hmem _ List.mem_cons_self rfl
      rw [List.foldl_cons, Assoc.insert_eq_append hnew, ih _ (by simpa using hn), List.append_assoc]
      rfl
  exact hfold t [] h

namespace Enumeration

variable {used given : List ℤ} {fuel n next k i : ℕ} {name : String}
  {entries : List (String × Option ℤ)}

/-! ## Searching -/

/-- A number that passes over one in use has one less in front of it. -/
theorem countP_succ_lt (h : (n : ℤ) ∈ used) :
    used.countP (fun z => ((n + 1 : ℕ) : ℤ) ≤ z) < used.countP fun z => (n : ℤ) ≤ z := by
  obtain ⟨front, back, rfl⟩ := List.append_of_mem h
  have hle : ∀ zs : List ℤ,
      zs.countP (fun z => ((n + 1 : ℕ) : ℤ) ≤ z) ≤ zs.countP fun z => (n : ℤ) ≤ z :=
    fun zs => List.countP_mono_left fun z _ hz => by
      rw [decide_eq_true_eq] at hz ⊢
      omega
  have hfront := hle front
  have hback := hle back
  rw [List.countP_append, List.countP_append, List.countP_cons_of_neg (by simp),
    List.countP_cons_of_pos (by simp)]
  omega

/-- **A search finds the least number from where it starts that is not in use**, if it may pass
over as many numbers as are in use from there on. -/
theorem isLeast_leastFree (h : used.countP (fun z => (n : ℤ) ≤ z) ≤ fuel) :
    IsLeast {m : ℕ | n ≤ m ∧ (m : ℤ) ∉ used} (leastFree used fuel n) := by
  induction fuel generalizing n with
  | zero =>
    have hfree : (n : ℤ) ∉ used := fun hn => by
      have := countP_succ_lt hn
      omega
    exact ⟨⟨Nat.le_refl n, hfree⟩, fun m hm => hm.1⟩
  | succ fuel ih =>
    rw [leastFree]
    split
    · next hn =>
      rw [List.contains_iff_mem] at hn
      have hlt := countP_succ_lt hn
      obtain ⟨⟨hle, hfree⟩, hleast⟩ := ih (n := n + 1) (by omega)
      refine ⟨⟨by omega, hfree⟩, fun m hm => hleast ⟨?_, hm.2⟩⟩
      have hne : n ≠ m := by
        rintro rfl
        exact hm.2 hn
      have := hm.1
      omega
    · next hn =>
      rw [List.contains_iff_mem] at hn
      exact ⟨⟨Nat.le_refl n, hn⟩, fun m hm => hm.1⟩

/-! ## Numbers that are given nowhere -/

/-- A natural number that is not among some given ones. -/
def Spare (given : List ℤ) (n : ℕ) : Prop := (n : ℤ) ∉ given

instance (given : List ℤ) : DecidablePred (Spare given) := fun n =>
  inferInstanceAs (Decidable ((n : ℤ) ∉ given))

/-- Of the first numbers only so many are given. -/
theorem le_count_spare (given : List ℤ) (n : ℕ) : n ≤ Nat.count (Spare given) n + given.length := by
  have hcount : Nat.count (Spare given) n = ((Finset.range n).filter (Spare given)).card :=
    Nat.count_eq_card_filter_range _ n
  have hgiven : ((Finset.range n).filter fun m => ¬ Spare given m).card ≤ given.length := by
    calc ((Finset.range n).filter fun m => ¬ Spare given m).card
        ≤ given.toFinset.card := by
          refine Finset.card_le_card_of_injOn (fun m : ℕ => (m : ℤ))
            (fun m hm => ?_) fun a _ b _ h =>
            Int.ofNat.inj h
          simpa [Spare] using (Finset.mem_filter.1 hm).2
      _ ≤ given.length := given.toFinset_card_le
  have hsplit := Finset.card_filter_add_card_filter_not (s := Finset.range n) (Spare given)
  rw [Finset.card_range] at hsplit
  omega

theorem infinite_spare (given : List ℤ) : (Set.ofPred (Spare given)).Infinite := by
  refine fun hfinite => ?_
  have hle := le_count_spare given (hfinite.toFinset.card + given.length + 1)
  have hcount := Nat.count_le_card hfinite (hfinite.toFinset.card + given.length + 1)
  omega

/-- The `k`-th spare number comes soon. -/
theorem nth_spare_le (given : List ℤ) (k : ℕ) : Nat.nth (Spare given) k ≤ given.length + k := by
  refine Nat.lt_succ_iff.1 (Nat.nth_lt_of_lt_count (n := given.length + k + 1) ?_)
  have hle := le_count_spare given (given.length + k + 1)
  omega

/-! ## Numbering -/

/-- How far numbering is behind `k` entries without a number: in use are the given numbers and
the first `k` spare ones, and none below `next` is free. -/
structure Reached (given used : List ℤ) (next k : ℕ) : Prop where
  mem_used_iff : ∀ z, z ∈ used ↔ z ∈ given ∨ ∃ j < k, z = (Nat.nth (Spare given) j : ℤ)
  below : ∀ m < next, (m : ℤ) ∈ used

theorem reached_zero (given : List ℤ) : Reached given given 0 0 where
  mem_used_iff z := by simp
  below m hm := by omega

/-- From there the search finds the next spare number. -/
theorem Reached.leastFree_eq (h : Reached given used next k) :
    leastFree used (used.length + 1) next = Nat.nth (Spare given) k := by
  have hinf := infinite_spare given
  refine (isLeast_leastFree (Nat.le_succ_of_le List.countP_le_length)).unique
    ⟨⟨?_, ?_⟩, fun m hm => ?_⟩
  · by_contra hlt
    obtain hgiven | ⟨j, hj, heq⟩ := (h.mem_used_iff _).1 (h.below _ (Nat.lt_of_not_le hlt))
    · exact Nat.nth_mem_of_infinite hinf k hgiven
    · exact hj.ne' (Nat.nth_injective hinf (Int.ofNat.inj heq))
  · rw [h.mem_used_iff]
    rintro (hgiven | ⟨j, hj, heq⟩)
    · exact Nat.nth_mem_of_infinite hinf k hgiven
    · exact hj.ne' (Nat.nth_injective hinf (Int.ofNat.inj heq))
  · have hfree := hm.2
    rw [h.mem_used_iff, not_or] at hfree
    have hnth : Nat.nth (Spare given) (Nat.count (Spare given) m) = m := Nat.nth_count hfree.1
    have hle : k ≤ Nat.count (Spare given) m := by
      by_contra hlt
      exact hfree.2 ⟨_, Nat.lt_of_not_le hlt, by rw [hnth]⟩
    calc Nat.nth (Spare given) k ≤ Nat.nth (Spare given) (Nat.count (Spare given) m) :=
          Nat.nth_monotone hinf hle
      _ = m := hnth

/-- Behind a spare number that has been used, that is where the next search starts. -/
theorem Reached.succ (h : Reached given used next k) {m : ℕ} (hm : m = Nat.nth (Spare given) k) :
    Reached given ((m : ℤ) :: used) m (k + 1) where
  mem_used_iff z := by
    rw [List.mem_cons, h.mem_used_iff, hm, or_left_comm]
    simp only [Nat.lt_succ_iff_lt_or_eq, or_and_right, exists_or, exists_eq_left]
    rw [or_comm (a := z = _)]
  below l hl := by
    have hfound :=
      isLeast_leastFree (n := next) (Nat.le_succ_of_le (List.countP_le_length (l := used)))
    rw [h.leastFree_eq, ← hm] at hfound
    by_cases hlow : l < next
    · exact List.mem_cons_of_mem _ (h.below l hlow)
    · by_contra hfree
      rw [List.mem_cons, not_or] at hfree
      exact absurd (hfound.2 ⟨Nat.le_of_not_lt hlow, hfree.2⟩) (by omega)

/-- Give the entries without a number the values of a sequence, one after another. -/
def numberBy (f : ℕ → ℕ) (k : ℕ) : List (String × Option ℤ) → List (String × ℤ)
  | [] => []
  | (name, some n) :: rest => (name, n) :: numberBy f k rest
  | (name, none) :: rest => (name, (f k : ℤ)) :: numberBy f (k + 1) rest

/-- **Numbering gives the spare numbers in ascending order.** -/
theorem Reached.number_eq (h : Reached given used next k) (entries : List (String × Option ℤ)) :
    number used next entries = numberBy (Nat.nth (Spare given)) k entries := by
  induction entries generalizing used next k with
  | nil => rfl
  | cons e entries ih =>
    obtain ⟨name, _ | n⟩ := e
    · rw [number, numberBy, ih (h.succ h.leastFree_eq), h.leastFree_eq]
    · rw [number, numberBy, ih h]

/-! ## What a numbering gives -/

section

variable {f : ℕ → ℕ}

theorem map_fst_numberBy (f : ℕ → ℕ) (k : ℕ) (entries : List (String × Option ℤ)) :
    (numberBy f k entries).map Prod.fst = entries.map Prod.fst := by
  induction entries generalizing k with
  | nil => rfl
  | cons e entries ih =>
    obtain ⟨name, _ | n⟩ := e <;> simp [numberBy, ih]

theorem mem_numberBy_of_some {z : ℤ} (h : (name, some z) ∈ entries) :
    (name, z) ∈ numberBy f k entries := by
  induction entries generalizing k with
  | nil => cases h
  | cons e entries ih =>
    obtain ⟨name', _ | z'⟩ := e
    · exact List.mem_cons_of_mem _ (ih (by simpa using h))
    · obtain h | h := List.mem_cons.1 h
      · cases h
        exact List.mem_cons_self
      · exact List.mem_cons_of_mem _ (ih h)

/-- The number of entries without a number in front of an entry decides its number. -/
theorem mem_numberBy_of_none (h : entries[i]? = some (name, none)) :
    (name, (f (k + (entries.take i).countP (·.2.isNone)) : ℤ)) ∈ numberBy f k entries := by
  induction entries generalizing i k with
  | nil => cases h
  | cons e entries ih =>
    obtain ⟨name', z⟩ := e
    cases i with
    | zero =>
      cases h
      exact List.mem_cons_self
    | succ i =>
      have hmem := fun k => ih (k := k) h
      cases z with
      | none =>
        rw [List.take_succ_cons, List.countP_cons_of_pos rfl, ← Nat.add_assoc, Nat.add_right_comm]
        exact List.mem_cons_of_mem _ (hmem (k + 1))
      | some z =>
        rw [List.take_succ_cons, List.countP_cons_of_neg (by simp)]
        exact List.mem_cons_of_mem _ (hmem k)

/-- A number is a given one, or comes from the sequence. -/
theorem mem_numberBy {z : ℤ} (h : (name, z) ∈ numberBy f k entries) :
    z ∈ givenNumbers entries ∨ ∃ j ≥ k, z = (f j : ℤ) := by
  induction entries generalizing k with
  | nil => cases h
  | cons e entries ih =>
    obtain ⟨name', _ | z'⟩ := e
    · obtain h | h := List.mem_cons.1 h
      · exact .inr ⟨k, Nat.le_refl k, (Prod.mk.inj h).2⟩
      · exact (ih h).imp_right fun ⟨j, hj, hz⟩ => ⟨j, by omega, hz⟩
    · obtain h | h := List.mem_cons.1 h
      · exact .inl ((Prod.mk.inj h).2 ▸ List.mem_cons_self)
      · exact (ih h).imp_left (List.mem_cons_of_mem _)

/-- No number is given twice where the sequence repeats none and avoids the given ones. -/
theorem nodup_numberBy (hf : Function.Injective f)
    (hspare : ∀ j, Spare (givenNumbers entries) (f j)) (hgiven : (givenNumbers entries).Nodup) :
    ((numberBy f k entries).map Prod.snd).Nodup := by
  induction entries generalizing k with
  | nil => exact List.nodup_nil
  | cons e entries ih =>
    obtain ⟨name, _ | z⟩ := e
    · refine List.nodup_cons.2 ⟨fun hmem => ?_, ih hspare hgiven⟩
      obtain ⟨⟨name', z⟩, hmem, rfl : z = (f k : ℤ)⟩ := List.mem_map.1 hmem
      obtain hin | ⟨j, hj, heq⟩ := mem_numberBy hmem
      · exact hspare k hin
      · exact Nat.not_succ_le_self k (hf (Int.ofNat.inj heq) ▸ hj)
    · have hcons : givenNumbers ((name, some z) :: entries) = z :: givenNumbers entries := rfl
      rw [hcons, List.nodup_cons] at hgiven
      refine List.nodup_cons.2
        ⟨fun hmem => ?_, ih (fun j hin => hspare j (List.mem_cons_of_mem _ hin)) hgiven.2⟩
      obtain ⟨⟨name', w⟩, hw, rfl : w = z⟩ := List.mem_map.1 hmem
      obtain hin | ⟨j, -, heq⟩ := mem_numberBy hw
      · exact hgiven.1 hin
      · exact hspare j (heq ▸ List.mem_cons_self)

end

/-- Among the entries without a number there is one for every place. -/
theorem exists_getElem?_of_lt (h : k < entries.countP (·.2.isNone)) :
    ∃ i name, entries[i]? = some (name, none) ∧ (entries.take i).countP (·.2.isNone) = k := by
  induction entries generalizing k with
  | nil => simp at h
  | cons e entries ih =>
    obtain ⟨name, _ | z⟩ := e
    · cases k with
      | zero => exact ⟨0, name, rfl, rfl⟩
      | succ k =>
        rw [List.countP_cons_of_pos rfl] at h
        obtain ⟨i, name', hi, hk⟩ := ih (k := k) (by omega)
        exact ⟨i + 1, name', hi, by rw [List.take_succ_cons, List.countP_cons_of_pos rfl, hk]⟩
    · rw [List.countP_cons_of_neg (by simp)] at h
      obtain ⟨i, name', hi, hk⟩ := ih h
      exact ⟨i + 1, name', hi, by rw [List.take_succ_cons, List.countP_cons_of_neg (by simp), hk]⟩

/-- An entry without a number has fewer of them in front of it than what is behind it has. -/
theorem countP_take_lt {j : ℕ} (hj : entries[j]? = some (name, none)) (hji : j < i) :
    (entries.take j).countP (·.2.isNone) < (entries.take i).countP (·.2.isNone) := by
  have hsplit : entries.take i = entries.take j ++ (entries.take i).drop j := by
    conv_lhs => rw [← List.take_append_drop j (entries.take i), List.take_take,
      Nat.min_eq_left (Nat.le_of_lt hji)]
  have hhere : 0 < ((entries.take i).drop j).countP (·.2.isNone) := by
    refine List.countP_pos_iff.2 ⟨(name, none), List.mem_of_getElem? (i := 0) ?_, rfl⟩
    rw [List.getElem?_drop, Nat.add_zero, List.getElem?_take, if_pos hji]
    exact hj
  rw [hsplit, List.countP_append]
  omega

/-! ## Enumerations -/

theorem members_ofEntries (h : (entries.map Prod.fst).Nodup) :
    (ofEntries entries).members = numberBy (Nat.nth (Spare (givenNumbers entries))) 0 entries := by
  have hnumber := (reached_zero (givenNumbers entries)).number_eq entries
  rw [ofEntries, hnumber, Assoc.ofList_eq_self]
  rw [Assoc.keys, map_fst_numberBy]
  exact h

theorem names_ofEntries (h : (entries.map Prod.fst).Nodup) :
    (ofEntries entries).names = entries.map Prod.fst := by
  rw [names, members_ofEntries h, Assoc.keys, map_fst_numberBy]

/-- The number of a name is the one that it is listed with. -/
theorem number?_ofEntries (h : (entries.map Prod.fst).Nodup) {z : ℤ} :
    (ofEntries entries).number? name = some z ↔
      (name, z) ∈ numberBy (Nat.nth (Spare (givenNumbers entries))) 0 entries := by
  rw [number?, members_ofEntries h]
  refine ⟨Assoc.mem_of_get?_eq_some, Assoc.get?_eq_some_of_mem ?_⟩
  rw [Assoc.keys, map_fst_numberBy]
  exact h

theorem number?_of_some (h : (entries.map Prod.fst).Nodup) {z : ℤ} (hz : (name, some z) ∈ entries) :
    (ofEntries entries).number? name = some z := (number?_ofEntries h).2 (mem_numberBy_of_some hz)

theorem number?_of_none (h : (entries.map Prod.fst).Nodup) (hi : entries[i]? = some (name, none)) :
    (ofEntries entries).number? name =
      some (Nat.nth (Spare (givenNumbers entries)) ((entries.take i).countP (·.2.isNone)) : ℤ) := by
  have hmem := mem_numberBy_of_none (f := Nat.nth (Spare (givenNumbers entries))) (k := 0) hi
  rw [Nat.zero_add] at hmem
  exact (number?_ofEntries h).2 hmem

/-- A number of an entry without one is less than the number of all entries. -/
theorem nth_spare_lt (hi : entries[i]? = some (name, none)) :
    Nat.nth (Spare (givenNumbers entries)) ((entries.take i).countP (·.2.isNone)) <
      entries.length := by
  have hle := nth_spare_le (givenNumbers entries) ((entries.take i).countP (·.2.isNone))
  have hgiven : (givenNumbers entries).length + entries.countP (·.2.isNone) = entries.length := by
    rw [givenNumbers, List.length_filterMap_eq_countP,
      List.length_eq_countP_add_countP fun e => e.2.isSome]
    simp only [Bool.not_eq_true, Option.isSome_eq_false_iff, Bool.decide_eq_true]
  have hlt := countP_take_lt hi (List.getElem?_eq_some_iff.1 hi).1
  rw [List.take_length] at hlt
  omega

/-- What is left for an entry without a number is the least natural number that is neither given
anywhere nor used for an entry in front of it. -/
theorem isLeast_nth_spare (h : (entries.map Prod.fst).Nodup) (i : ℕ) :
    IsLeast {n : ℕ | (n : ℤ) ∉ givenNumbers entries ∧
        ∀ e ∈ entries.take i, (ofEntries entries).number? e.1 ≠ some (n : ℤ)}
      (Nat.nth (Spare (givenNumbers entries)) ((entries.take i).countP (·.2.isNone))) := by
  have hinf := infinite_spare (givenNumbers entries)
  refine ⟨⟨Nat.nth_mem_of_infinite hinf _, fun e he heq => ?_⟩, fun n hn => ?_⟩
  · obtain ⟨j, hj⟩ := List.getElem?_of_mem he
    obtain ⟨name', _ | z⟩ := e
    · rw [List.getElem?_take] at hj
      split at hj
      · next hji =>
        rw [number?_of_none h hj] at heq
        have hsame := Nat.nth_injective hinf (Int.ofNat.inj (Option.some.inj heq))
        have hlt := countP_take_lt hj hji
        omega
      · cases hj
    · have hmem := List.mem_of_mem_take he
      rw [number?_of_some h hmem, Option.some.injEq] at heq
      subst heq
      exact Nat.nth_mem_of_infinite hinf _ (List.mem_filterMap.2 ⟨_, hmem, rfl⟩)
  · obtain ⟨hfree, hunused⟩ := hn
    have hnth : Nat.nth (Spare (givenNumbers entries))
        (Nat.count (Spare (givenNumbers entries)) n) = n :=
      Nat.nth_count hfree
    by_contra hlt
    rw [not_le, ← hnth, Nat.nth_lt_nth hinf] at hlt
    obtain ⟨j, name', hj, hcount⟩ := exists_getElem?_of_lt hlt
    have hji : j < i := by
      have := (List.getElem?_eq_some_iff.1 hj).1
      simp at this
      omega
    rw [List.take_take, Nat.min_eq_left (Nat.le_of_lt hji)] at hcount
    refine hunused _ (List.mem_of_getElem? hj) ?_
    rw [List.getElem?_take, if_pos hji] at hj
    rw [number?_of_none h hj, hcount, hnth]

/-- **Numbers of an enumeration**: the names are listed as they were declared.  A number that is
given stays, and the `k`-th entry without one gets the `k`-th natural number that is given nowhere;
that is the least one not in use yet, and less than the number of entries.  The search for it ends
at the latest behind as many numbers as are in use.  Where no number is given twice no two names
have the same number. -/
theorem numbers_least_free (h : (entries.map Prod.fst).Nodup) :
    (ofEntries entries).names = entries.map Prod.fst ∧
      (∀ (used : List ℤ) (start fuel : ℕ), used.length ≤ fuel →
        IsLeast {n : ℕ | start ≤ n ∧ (n : ℤ) ∉ used} (leastFree used fuel start)) ∧
      (∀ name z, (name, some z) ∈ entries → (ofEntries entries).number? name = some z) ∧
      (∀ i name, entries[i]? = some (name, none) → ∃ m : ℕ,
        (ofEntries entries).number? name = some (m : ℤ) ∧
        m = Nat.nth (fun n => (n : ℤ) ∉ givenNumbers entries)
          ((entries.take i).countP (·.2.isNone)) ∧
        IsLeast {n : ℕ | (n : ℤ) ∉ givenNumbers entries ∧
          ∀ e ∈ entries.take i, (ofEntries entries).number? e.1 ≠ some (n : ℤ)} m ∧
        m < entries.length) ∧
      ((givenNumbers entries).Nodup →
        Set.InjOn (ofEntries entries).number?
          {name | (ofEntries entries).contains name = true}) := by
  refine ⟨names_ofEntries h, fun _ _ _ hfuel =>
    isLeast_leastFree (List.countP_le_length.trans hfuel),
    fun _ _ hz => number?_of_some h hz, fun i name hi => ?_, fun hgiven => ?_⟩
  · exact ⟨_, number?_of_none h hi, rfl, isLeast_nth_spare h i, nth_spare_lt hi⟩
  · intro a ha b _ hab
    have hinf := infinite_spare (givenNumbers entries)
    have hnodup : ((numberBy (Nat.nth (Spare (givenNumbers entries))) 0 entries).map
        Prod.snd).Nodup :=
      nodup_numberBy (Nat.nth_injective hinf) (Nat.nth_mem_of_infinite hinf) hgiven
    obtain ⟨z, hz⟩ : ∃ z, (ofEntries entries).number? a = some z := Option.isSome_iff_exists.1 ha
    have hza := (number?_ofEntries h).1 hz
    have hzb := (number?_ofEntries h).1 (hab ▸ hz)
    exact congrArg Prod.fst (List.inj_on_of_nodup_map hnodup hza hzb rfl)

/-- A number that is given further behind is passed over, and one below zero is in nobody's way. -/
theorem numbers_least_free_behind :
    ["a", "b", "c", "d"].Nodup ∧
      (ofEntries [("a", none), ("b", some (-3)), ("c", none), ("d", some 1)]).names =
        ["a", "b", "c", "d"] ∧
      (ofEntries [("a", none), ("b", some (-3)), ("c", none), ("d", some 1)]).number? "c" = some 2 ∧
      Nat.nth (fun n => (n : ℤ) ∉ [-3, 1]) 1 = 2 := by
  have hnames : (["a", "b", "c", "d"] : List String).Nodup := by decide
  have hnumber : (ofEntries [("a", none), ("b", some (-3)), ("c", none), ("d", some 1)]).number?
      "c" = some 2 := by
    decide +kernel
  obtain ⟨hlisted, -, -, hleast, -⟩ :=
    @numbers_least_free [("a", none), ("b", some (-3)), ("c", none), ("d", some 1)] hnames
  obtain ⟨m, hm, hnth, -⟩ := hleast 2 "c" rfl
  obtain rfl : m = 2 := Int.ofNat.inj (Option.some.inj (hm.symm.trans hnumber))
  exact ⟨hnames, hlisted, hnumber, hnth.symm⟩

end Enumeration

end DataTree
