import DataTree.Pattern.Matcher

/-!
# DataTree.Pattern.Matcher.Lemmas

The matcher decides what expressions mean: `testBit_run` says which positions
`Regex.run` reaches, and `occursIn_iff` that `Regex.occursIn` decides `Occurs`.

A repetition is a chain of rounds.  A round never leads back, so a chain that
leads from one position to another can be had without the rounds that stay where
they are, and is then no longer than the text.
-/

namespace DataTree.Pattern

open Text (CharSet)

/-! ## Chains of rounds -/

/-- Exactly `n` steps of a relation between positions. -/
inductive Chain (R : Nat → Nat → Prop) : Nat → Nat → Nat → Prop where
  | nil {i : Nat} : Chain R 0 i i
  | cons {n i j k : Nat} (first : R i j) (rest : Chain R n j k) : Chain R (n + 1) i k

theorem chain_zero_iff {R : Nat → Nat → Prop} {i k : Nat} : Chain R 0 i k ↔ i = k := by
  constructor
  · intro h; cases h; rfl
  · rintro rfl; exact .nil

theorem chain_succ_iff {R : Nat → Nat → Prop} {n i k : Nat} :
    Chain R (n + 1) i k ↔ ∃ j, R i j ∧ Chain R n j k := by
  constructor
  · intro h; cases h with | cons first rest => exact ⟨_, first, rest⟩
  · rintro ⟨j, first, rest⟩; exact .cons first rest

theorem chain_add_iff {R : Nat → Nat → Prop} {m n i k : Nat} :
    Chain R (m + n) i k ↔ ∃ j, Chain R m i j ∧ Chain R n j k := by
  induction m generalizing i with
  | zero => simp [chain_zero_iff]
  | succ m ih =>
    rw [Nat.succ_add, chain_succ_iff]
    simp only [chain_succ_iff, ih]
    constructor
    · rintro ⟨p, hp, j, hm, hn⟩; exact ⟨j, ⟨p, hp, hm⟩, hn⟩
    · rintro ⟨j, ⟨p, hp, hm⟩, hn⟩; exact ⟨p, hp, j, hm, hn⟩

/-- A relation that only leads forward, and not beyond `L` unless it stays. -/
def Forward (L : Nat) (R : Nat → Nat → Prop) : Prop := ∀ i j, R i j → i = j ∨ i < j ∧ j ≤ L

theorem Chain.forward {L : Nat} {R : Nat → Nat → Prop} (hR : Forward L R) {n i k : Nat}
    (h : Chain R n i k) : i = k ∨ i < k ∧ k ≤ L := by
  induction h with
  | nil => exact Or.inl rfl
  | cons first _ ih =>
    have := hR _ _ first
    omega

/-- The rounds that stay where they are can be left out. -/
theorem Chain.shorten {L : Nat} {R : Nat → Nat → Prop} (hR : Forward L R) {n i k : Nat}
    (h : Chain R n i k) : ∃ m, m ≤ k - i ∧ Chain R m i k := by
  induction h with
  | nil => exact ⟨0, Nat.zero_le _, .nil⟩
  | @cons n i j k first rest ih =>
    obtain ⟨m, hm, hc⟩ := ih
    have hstep := hR _ _ first
    have hrest := rest.forward hR
    by_cases hij : i = j
    · subst hij; exact ⟨m, hm, hc⟩
    · exact ⟨m + 1, by omega, .cons first hc⟩

/-! ## Rounds on sets of positions -/

/-- A function on sets of positions that takes every member along a relation. -/
def Follows (f : Nat → Nat) (R : Nat → Nat → Prop) : Prop :=
  ∀ s j, (f s).testBit j = true ↔ ∃ i, s.testBit i = true ∧ R i j

theorem rounds_of_fixed {f : Nat → Nat} {s : Nat} (h : f s = s) (n : Nat) : rounds f n s = s := by
  cases n <;> simp [rounds, h]

theorem rounds_succ (f : Nat → Nat) (n s : Nat) : rounds f (n + 1) s = rounds f n (f s) := by
  by_cases h : f s = s
  · rw [h, rounds_of_fixed h, rounds_of_fixed h]
  · simp [rounds, h]

theorem upTo_of_fixed {f : Nat → Nat} {s : Nat} (h : s ||| f s = s) (n : Nat) : upTo f n s = s := by
  cases n <;> simp [upTo, h]

theorem upTo_succ (f : Nat → Nat) (n s : Nat) : upTo f (n + 1) s = upTo f n (s ||| f s) := by
  by_cases h : s ||| f s = s
  · rw [h, upTo_of_fixed h, upTo_of_fixed h]
  · simp [upTo, h]

theorem testBit_rounds {f : Nat → Nat} {R : Nat → Nat → Prop} (hf : Follows f R) (n s k : Nat) :
    (rounds f n s).testBit k = true ↔ ∃ i, s.testBit i = true ∧ Chain R n i k := by
  induction n generalizing s with
  | zero => simp [rounds, chain_zero_iff]
  | succ n ih =>
    rw [rounds_succ, ih]
    simp only [hf s, chain_succ_iff]
    constructor
    · rintro ⟨j, ⟨i, hi, hij⟩, hjk⟩; exact ⟨i, hi, j, hij, hjk⟩
    · rintro ⟨i, hi, j, hij, hjk⟩; exact ⟨j, ⟨i, hi, hij⟩, hjk⟩

theorem testBit_upTo {f : Nat → Nat} {R : Nat → Nat → Prop} (hf : Follows f R) (n s k : Nat) :
    (upTo f n s).testBit k = true ↔
      ∃ m, m ≤ n ∧ ∃ i, s.testBit i = true ∧ Chain R m i k := by
  induction n generalizing s with
  | zero =>
    simp only [upTo, Nat.le_zero]
    constructor
    · intro h; exact ⟨0, rfl, k, h, .nil⟩
    · rintro ⟨m, rfl, i, hi, hc⟩; rw [← chain_zero_iff.1 hc]; exact hi
  | succ n ih =>
    rw [upTo_succ, ih]
    simp only [Nat.testBit_or, Bool.or_eq_true, hf s]
    constructor
    · rintro ⟨m, hm, j, hj | ⟨i, hi, hij⟩, hc⟩
      · exact ⟨m, by omega, j, hj, hc⟩
      · exact ⟨m + 1, by omega, i, hi, .cons hij hc⟩
    · rintro ⟨m, hm, i, hi, hc⟩
      cases hc with
      | nil => exact ⟨0, Nat.zero_le _, _, Or.inl hi, .nil⟩
      | cons first rest => exact ⟨_, Nat.le_of_succ_le_succ hm, _, Or.inr ⟨_, hi, first⟩, rest⟩

/-! ## Single characters and conditions -/

theorem testBit_bit_succ (b : Bool) (i : Nat) : (bit b).testBit (i + 1) = false := by
  cases b <;> simp [bit, Nat.testBit_succ]

theorem testBit_shift_zero (b : Bool) (n : Nat) : (bit b ||| n <<< 1).testBit 0 = b := by
  rw [Nat.testBit_or, Nat.testBit_shiftLeft]
  cases b <;> simp [bit]

theorem testBit_shift_succ (b : Bool) (n i : Nat) :
    (bit b ||| n <<< 1).testBit (i + 1) = n.testBit i := by
  simp [testBit_bit_succ]

theorem testBit_places (s : CharSet) (text : List Char) (i : Nat) :
    (places s text).testBit i = true ↔ ∃ c, text[i]? = some c ∧ s.contains c = true := by
  induction text generalizing i with
  | nil => simp [places]
  | cons c cs ih =>
    cases i with
    | zero => rw [places, testBit_shift_zero]; simp
    | succ i => rw [places, testBit_shift_succ, ih]; simp

/-- The character before a position of a text that `before` stands in front of. -/
def charBeforeIn (before : Option Char) (text : List Char) : Nat → Option Char
  | 0 => before
  | i + 1 => text[i]?

theorem testBit_spots (l : Look) (before : Option Char) (text : List Char) (i : Nat) :
    (spots l before text).testBit i = true ↔
      i ≤ text.length ∧ l.holds (charBeforeIn before text i) text[i]? = true := by
  induction text generalizing before i with
  | nil =>
    cases i with
    | zero =>
      have h := testBit_shift_zero (l.holds before none) 0
      simp only [Nat.zero_shiftLeft, Nat.or_zero] at h
      rw [spots, h]
      simp [charBeforeIn]
    | succ i => rw [spots, testBit_bit_succ]; simp
  | cons c cs ih =>
    cases i with
    | zero => rw [spots, testBit_shift_zero]; simp [charBeforeIn]
    | succ i =>
      rw [spots, testBit_shift_succ, ih]
      cases i <;> simp [charBeforeIn]

theorem charBeforeIn_none (text : List Char) (i : Nat) :
    charBeforeIn none text i = charBefore text i := by
  cases i <;> rfl

/-! ## Repetitions -/

/-- Matches never lead back, and none leads beyond the end. -/
theorem Matches.forward {text : List Char} {r : Regex} {i j : Nat} (h : Matches text r i j) :
    i = j ∨ i < j ∧ j ≤ text.length := by
  induction h with
  | empty | look | repNil => exact Or.inl rfl
  | one at_i _ =>
    have := (List.getElem?_eq_some_iff.1 at_i).1
    omega
  | seq _ _ ihl ihr => omega
  | altLeft _ ih => exact ih
  | altRight _ ih => exact ih
  | group _ ih => exact ih
  | repStep _ _ _ ih1 ih2 => omega

theorem forward_matches (text : List Char) (r : Regex) : Forward text.length (Matches text r) :=
  fun _ _ h => h.forward

/-- A repetition is a chain of matches, as long as its bounds allow. -/
theorem matches_rep_iff {text : List Char} {r : Regex} {min : Nat} {max : Option Nat} {i k : Nat} :
    Matches text (.rep r min max) i k ↔
      ∃ n, min ≤ n ∧ (∀ m, max = some m → n ≤ m) ∧ Chain (Matches text r) n i k := by
  constructor
  · intro h
    generalize hr : Regex.rep r min max = e at h
    induction h generalizing min max with
    | empty | one | look | seq | altLeft | altRight | group => cases hr
    | repNil =>
      cases hr
      exact ⟨0, Nat.le_refl _, fun _ _ => Nat.zero_le _, .nil⟩
    | repStep room first _ _ ih =>
      cases hr
      obtain ⟨n, hmin, hmax, hc⟩ := ih rfl
      refine ⟨n + 1, by omega, ?_, .cons first hc⟩
      rintro m rfl
      have hm : m ≠ 0 := fun h => room (h ▸ rfl)
      have := hmax (m - 1) rfl
      omega
  · rintro ⟨n, hmin, hmax, hc⟩
    induction hc generalizing min max with
    | nil =>
      obtain rfl : min = 0 := by omega
      exact .repNil
    | @cons n i j k first rest ih =>
      refine .repStep ?_ first (ih (by omega) ?_)
      · rintro rfl
        have := hmax 0 rfl
        omega
      · intro m hm
        cases max with
        | none => cases hm
        | some m' =>
          have hle := hmax m' rfl
          simp only [Option.map_some, Option.some.injEq] at hm
          omega

/-! ## The matcher -/

/-! How the matcher goes through an expression. -/

theorem run_one (text : List Char) (set : CharSet) (s : Nat) :
    Regex.run text (.one set) s = (s &&& places set text) <<< 1 := rfl

theorem run_look (text : List Char) (l : Look) (s : Nat) :
    Regex.run text (.look l) s = s &&& spots l none text := rfl

theorem run_seq (text : List Char) (a b : Regex) (s : Nat) :
    Regex.run text (.seq a b) s = b.run text (a.run text s) := rfl

theorem run_alt (text : List Char) (a b : Regex) (s : Nat) :
    Regex.run text (.alt a b) s = a.run text s ||| b.run text s := rfl

theorem run_group (text : List Char) (captures : Bool) (r : Regex) :
    Regex.run text (.group captures r) = r.run text := rfl

theorem run_rep_some (text : List Char) (r : Regex) (min max s : Nat) :
    Regex.run text (.rep r min (some max)) s =
      if max < min then 0 else upTo (r.run text) (max - min) (rounds (r.run text) min s) := rfl

theorem run_rep_none (text : List Char) (r : Regex) (min s : Nat) :
    Regex.run text (.rep r min none) s =
      upTo (r.run text) (text.length + 1) (rounds (r.run text) min s) := rfl

/-! What it does for each kind of expression. -/

theorem follows_one (text : List Char) (set : CharSet) :
    Follows ((Regex.one set).run text) (Matches text (.one set)) := by
  intro s j
  rw [run_one, Nat.testBit_shiftLeft]
  cases j with
  | zero =>
    constructor
    · intro h; simp at h
    · rintro ⟨i, _, hm⟩; cases hm
  | succ j =>
    have hp := testBit_places set text j
    constructor
    · intro h
      simp only [Nat.add_sub_cancel, Nat.testBit_and, Bool.and_eq_true] at h
      obtain ⟨c, hc, hmem⟩ := hp.1 h.2.2
      exact ⟨j, h.2.1, .one hc hmem⟩
    · rintro ⟨i, hi, hm⟩
      cases hm with
      | one at_i mem => simp [hi, hp.2 ⟨_, at_i, mem⟩]

theorem follows_look (text : List Char) (l : Look) :
    Follows ((Regex.look l).run text) (Matches text (.look l)) := by
  intro s j
  rw [run_look, Nat.testBit_and, Bool.and_eq_true, testBit_spots, charBeforeIn_none]
  constructor
  · rintro ⟨hs, hle, hh⟩; exact ⟨j, hs, .look hle hh⟩
  · rintro ⟨i, hi, hm⟩
    cases hm with
    | look le holds => exact ⟨hi, le, holds⟩

/-- The required rounds and then at most `n` more. -/
theorem testBit_upTo_rounds {f : Nat → Nat} {R : Nat → Nat → Prop} (hf : Follows f R)
    (n min s k : Nat) :
    (upTo f n (rounds f min s)).testBit k = true ↔
      ∃ m, m ≤ n ∧ ∃ i, s.testBit i = true ∧ Chain R (min + m) i k := by
  simp only [testBit_upTo hf, testBit_rounds hf, chain_add_iff]
  constructor
  · rintro ⟨m, hm, j, ⟨i, hi, hij⟩, hjk⟩; exact ⟨m, hm, i, hi, j, hij, hjk⟩
  · rintro ⟨m, hm, i, hi, j, hij, hjk⟩; exact ⟨m, hm, j, ⟨i, hi, hij⟩, hjk⟩

theorem follows_rep_some {text : List Char} {r : Regex} (hf : Follows (r.run text) (Matches text r))
    (min max : Nat) :
    Follows ((Regex.rep r min (some max)).run text) (Matches text (.rep r min (some max))) := by
  intro s k
  simp only [matches_rep_iff]
  by_cases hlt : max < min
  · simp only [run_rep_some, hlt, if_true, Nat.zero_testBit, Bool.false_eq_true, false_iff]
    rintro ⟨i, _, n, hmin, hmax, _⟩
    have := hmax max rfl
    omega
  · simp only [run_rep_some, hlt, if_false, testBit_upTo_rounds hf]
    constructor
    · rintro ⟨m, hm, i, hi, hc⟩
      refine ⟨i, hi, min + m, by omega, fun m' hm' => ?_, hc⟩
      have := Option.some.inj hm'
      omega
    · rintro ⟨i, hi, n, hmin, hmax, hc⟩
      have := hmax max rfl
      refine ⟨n - min, by omega, i, hi, ?_⟩
      rwa [Nat.add_sub_cancel' hmin]

/-- Without an upper bound one round more than the text is long is enough, as the
rounds beyond the required ones can be had without those that stay. -/
theorem follows_rep_none {text : List Char} {r : Regex} (hf : Follows (r.run text) (Matches text r))
    (min : Nat) :
    Follows ((Regex.rep r min none).run text) (Matches text (.rep r min none)) := by
  intro s k
  simp only [matches_rep_iff, run_rep_none, testBit_upTo_rounds hf]
  constructor
  · rintro ⟨m, _, i, hi, hc⟩
    exact ⟨i, hi, min + m, by omega, fun _ h => (nomatch h), hc⟩
  · rintro ⟨i, hi, n, hmin, _, hc⟩
    obtain ⟨j, hij, hjk⟩ := chain_add_iff.1 (Nat.add_sub_cancel' hmin ▸ hc)
    obtain ⟨m, hm, hc'⟩ := hjk.shorten (forward_matches text r)
    have := hjk.forward (forward_matches text r)
    exact ⟨m, by omega, i, hi, chain_add_iff.2 ⟨j, hij, hc'⟩⟩

/-- From a set of positions the matcher reaches exactly the ends of matches. -/
theorem testBit_run (text : List Char) (r : Regex) :
    Follows (r.run text) (Matches text r) := by
  induction r with
  | empty =>
    intro s j
    constructor
    · intro h; exact ⟨j, h, .empty⟩
    · rintro ⟨i, hi, hm⟩; cases hm; exact hi
  | one set => exact follows_one text set
  | look l => exact follows_look text l
  | seq a b iha ihb =>
    intro s k
    rw [run_seq, ihb]
    simp only [iha s]
    constructor
    · rintro ⟨j, ⟨i, hi, hij⟩, hjk⟩; exact ⟨i, hi, .seq hij hjk⟩
    · rintro ⟨i, hi, hm⟩
      cases hm with
      | seq left right => exact ⟨_, ⟨i, hi, left⟩, right⟩
  | alt a b iha ihb =>
    intro s k
    rw [run_alt, Nat.testBit_or, Bool.or_eq_true, iha, ihb]
    constructor
    · rintro (⟨i, hi, hm⟩ | ⟨i, hi, hm⟩)
      · exact ⟨i, hi, .altLeft hm⟩
      · exact ⟨i, hi, .altRight hm⟩
    · rintro ⟨i, hi, hm⟩
      cases hm with
      | altLeft left => exact Or.inl ⟨i, hi, left⟩
      | altRight right => exact Or.inr ⟨i, hi, right⟩
  | group captures r ih =>
    intro s j
    rw [run_group, ih]
    constructor
    · rintro ⟨i, hi, hm⟩; exact ⟨i, hi, .group hm⟩
    · rintro ⟨i, hi, hm⟩
      cases hm with
      | group body => exact ⟨i, hi, body⟩
  | rep r min max ih =>
    cases max with
    | some max => exact follows_rep_some ih min max
    | none => exact follows_rep_none ih min

/-- **Adequacy of the matcher**: it finds an expression in a text exactly if the
expression matches some stretch of it. -/
theorem occursIn_iff (r : Regex) (text : List Char) :
    r.occursIn text = true ↔ Occurs text r := by
  have hpos (i : Nat) : ((1 <<< (text.length + 1)) - 1).testBit i = true ↔ i ≤ text.length := by
    rw [Nat.one_shiftLeft, Nat.testBit_two_pow_sub_one, decide_eq_true_eq, Nat.lt_succ_iff]
  unfold Regex.occursIn Occurs
  rw [bne_iff_ne]
  constructor
  · intro h
    obtain ⟨j, hj⟩ := Nat.exists_testBit_of_ne_zero h
    obtain ⟨i, hi, hm⟩ := (testBit_run text r _ j).1 hj
    exact ⟨i, j, (hpos i).1 hi, hm⟩
  · rintro ⟨i, j, hi, hm⟩ h
    have := (testBit_run text r _ j).2 ⟨i, (hpos i).2 hi, hm⟩
    rw [h] at this
    simp at this

end DataTree.Pattern
