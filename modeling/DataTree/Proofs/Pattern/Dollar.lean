import DataTree.Pattern.Anchored
import DataTree.Proofs.Pattern.Bodies

/-!
# DataTree.Proofs.Pattern.Dollar

Dollar signs at the end of a pattern.

A dollar sign at the end is taken off, unless the character before it is a backslash
(`body_concat_dollar`).  No more than that one character is looked at, so the dollar sign also
stays behind a backslash that is escaped itself.  It does no harm there.  Behind an even number of
backslashes it is an anchor, now inside of the group that the pattern is put into, and the pattern
matches the same up to the end of a text as without it (`readBody_anchor_dollar`).  Behind an odd
number it is a character, and without it nothing could be read (`readBody_escaped_dollar`).
-/

namespace DataTree.Pattern

variable {text cs : List Char} {r : Regex} {rs : List Regex} {i j k : Nat}

/-! ## The test for a backslash -/

/-- The dollar sign stays exactly if the character before it is a backslash. -/
theorem dropDollar_concat (cs : List Char) :
    dropDollar (cs ++ ['$']) = if cs.getLast? = some '\\' then cs ++ ['$'] else cs := by
  rcases List.eq_nil_or_concat' cs with rfl | ⟨ds, c, rfl⟩
  · rfl
  · by_cases hc : c = '\\' <;> simp [dropDollar, hc]

theorem dropCaret_concat_dollar (cs : List Char) :
    dropCaret (cs ++ ['$']) = dropCaret cs ++ ['$'] := by
  cases cs with
  | nil => rfl
  | cons c ds => by_cases hc : c = '^' <;> simp [dropCaret, hc]

theorem getLast?_dropCaret (cs : List Char) :
    (dropCaret cs).getLast? = some '\\' ↔ cs.getLast? = some '\\' := by
  unfold dropCaret
  split
  · next ds => cases ds <;> simp
  · rfl

/-- **Which dollar signs are taken off**: those without a backslash right before them, whatever that
backslash may mean. -/
theorem body_concat_dollar (cs : List Char) :
    body (cs ++ ['$']) =
      if cs.getLast? = some '\\' then dropCaret cs ++ ['$'] else dropCaret cs := by
  simp only [body, dropCaret_concat_dollar, dropDollar_concat, getLast?_dropCaret]

/-- The second backslash is escaped by the first one, and still keeps the dollar sign. -/
example : body ['^', '\\', '\\', '$'] = ['\\', '\\', '$'] := rfl

/-! ## Anchors at the end of a body -/

/-- One expression more at the end of a sequence. -/
theorem matches_seqAll_concat : Matches text (seqAll (rs ++ [r])) i k ↔
    ∃ j, Matches text (seqAll rs) i j ∧ Matches text r j k := by
  induction rs generalizing i with
  | nil =>
    refine ⟨fun h => ⟨i, .empty, h⟩, ?_⟩
    rintro ⟨j, hempty, h⟩
    cases hempty with
    | empty => exact h
  | cons a rs ih =>
    have hseq {bs : List Regex} (hbs : bs ≠ []) : seqAll (a :: bs) = .seq a (seqAll bs) := by
      cases bs with
      | nil => exact absurd rfl hbs
      | cons => rfl
    rw [List.cons_append, hseq (by simp)]
    cases rs with
    | nil =>
      constructor
      · intro h
        cases h with
        | seq ha hr => exact ⟨_, ha, hr⟩
      · rintro ⟨j, ha, hr⟩
        exact .seq ha hr
    | cons b bs =>
      rw [hseq (List.cons_ne_nil b bs)]
      constructor
      · intro h
        cases h with
        | seq ha hrest =>
          obtain ⟨j, hbs, hr⟩ := ih.1 hrest
          exact ⟨j, .seq ha hbs, hr⟩
      · rintro ⟨j, h, hr⟩
        cases h with
        | seq ha hbs => exact .seq ha (ih.2 ⟨j, hbs, hr⟩)

/-- The last one of several expressions may be exchanged for one that matches the same. -/
theorem matches_altAll_concat {r' : Regex}
    (h : Matches text r i k ↔ Matches text r' i k) :
    Matches text (altAll (rs ++ [r])) i k ↔ Matches text (altAll (rs ++ [r'])) i k := by
  induction rs with
  | nil => exact h
  | cons a rs ih =>
    have halt (b : Regex) : altAll (a :: (rs ++ [b])) = .alt a (altAll (rs ++ [b])) := by
      cases rs <;> rfl
    rw [List.cons_append, List.cons_append, halt, halt]
    constructor
    · intro h
      cases h with
      | altLeft ha => exact .altLeft ha
      | altRight hrs => exact .altRight (ih.1 hrs)
    · intro h
      cases h with
      | altLeft ha => exact .altLeft ha
      | altRight hrs => exact .altRight (ih.2 hrs)

/-- A condition at the end of a body that holds at the end of the text. -/
theorem matches_finish_push_look {l : Look} (hl : ∀ before, l.holds before none = true) (b : Body)
    (depth i : Nat) :
    Matches text (b.push (.look l) depth).finish.1 i text.length ↔
      Matches text b.finish.1 i text.length := by
  simp only [Body.finish, Body.nextBranch, List.reverse_cons, List.map_append, List.map_cons,
    List.map_nil]
  refine matches_altAll_concat ?_
  simp only [Body.branch, Body.push, List.reverse_cons, List.filterMap_append, List.filterMap_cons,
    List.filterMap_nil]
  rw [matches_seqAll_concat]
  have hend : Matches text (.look l) text.length text.length :=
    .look (Nat.le_refl _) (by rw [List.getElem?_eq_none (Nat.le_refl _)]; exact hl _)
  constructor
  · rintro ⟨j, h, hlook⟩
    cases hlook with
    | look => exact h
  · exact fun h => ⟨text.length, h, hend⟩

/-! ## Reading backslashes -/

section

variable (flags : Flags) (names : List String) (b : Body)

/-- The body with this many backslashes more that stand for themselves. -/
def pushBackslashes (n : Nat) : Body := (·.push (literal flags '\\') 0)^[n] b

/-- A backslash escapes another one, and a dollar sign. -/
theorem readBody_backslash {fuel : Nat} (c : Char) (hc : c = '\\' ∨ c = '$') (ds : List Char) :
    readBody (fuel + 1) flags names b ('\\' :: c :: ds) =
      readBody fuel flags names (b.push (literal flags c) 0) ds := by
  have hskip := flags.skip_cons (c := '\\') rfl (by decide) (c :: ds)
  rw [readBody_atom fuel flags names b hskip (by decide) (by decide)]
  rcases hc with rfl | rfl <;> rfl

/-- Of an even number of backslashes every second one stands for itself. -/
theorem readBody_backslashes {fuel : Nat} (n : Nat) (ds : List Char) :
    readBody (fuel + n) flags names b (List.replicate (2 * n) '\\' ++ ds) =
      readBody fuel flags names (pushBackslashes flags b n) ds := by
  induction n generalizing b with
  | zero => rfl
  | succ n ih =>
    rw [Nat.mul_succ, List.replicate_succ, List.replicate_succ, List.cons_append, List.cons_append,
      ← Nat.add_assoc, readBody_backslash flags names b _ (.inl rfl), ih]
    rfl

/-- **Behind escaped backslashes a dollar sign is an anchor that makes no difference.**  Wherever a
body is read up to an even number of backslashes, it ends there with and without a dollar sign
behind them, and matches the same up to the end of a text. -/
theorem readBody_anchor_dollar (n : Nat) {fuel : Nat} (hfuel : n + 1 < fuel) : ∃ r depth r' depth',
    readBody fuel flags names b (List.replicate (2 * n) '\\') = .ok ⟨r, depth, names, []⟩ ∧
      readBody fuel flags names b (List.replicate (2 * n) '\\' ++ ['$']) =
        .ok ⟨r', depth', names, []⟩ ∧
      ∀ text i, Matches text r' i text.length ↔ Matches text r i text.length := by
  obtain ⟨m, rfl⟩ := Nat.exists_eq_add_of_lt hfuel
  have hfuel : n + 1 + m + 1 = (m + 2) + n := by omega
  let l : Look := if flags.multiLine then .lineEnd flags.crlf else .textEnd
  let body := pushBackslashes flags b n
  let closed := body.push (.look l) 0
  have hl (before : Option Char) : l.holds before none = true := by
    simp only [l]
    split
    · cases flags.crlf <;> simp [Look.holds]
    · rfl
  have hskip : flags.skip ['$'] = ['$'] := flags.skip_cons rfl (by decide) []
  refine ⟨body.finish.1, body.finish.2, closed.finish.1, closed.finish.2, ?_, ?_,
    fun text i => matches_finish_push_look hl body 0 i⟩
  · rw [hfuel, ← List.append_nil (List.replicate (2 * n) '\\'), readBody_backslashes]
    exact readBody_nil _ flags names body flags.skip_nil
  · rw [hfuel, readBody_backslashes, readBody_atom _ flags names _ hskip (by decide) (by decide)]
    exact readBody_nil m flags names closed flags.skip_nil

/-- **Behind any other number of backslashes a dollar sign is a character**, and without it the last
backslash would have nothing to escape. -/
theorem readBody_escaped_dollar (n : Nat) {fuel : Nat} (hfuel : n + 1 < fuel) :
    readBody fuel flags names b (List.replicate (2 * n + 1) '\\') = .error .unfinishedEscape ∧
      readBody fuel flags names b (List.replicate (2 * n + 1) '\\' ++ ['$']) =
        let body := (pushBackslashes flags b n).push (literal flags '$') 0
        .ok ⟨body.finish.1, body.finish.2, names, []⟩ := by
  obtain ⟨m, rfl⟩ := Nat.exists_eq_add_of_lt hfuel
  have hfuel : n + 1 + m + 1 = (m + 2) + n := by omega
  have hskip : flags.skip ['\\'] = ['\\'] := flags.skip_cons rfl (by decide) []
  have hreplicate : List.replicate (2 * n + 1) '\\' = List.replicate (2 * n) '\\' ++ ['\\'] :=
    List.replicate_succ'
  rw [hfuel, hreplicate, List.append_assoc]
  constructor
  · rw [readBody_backslashes, readBody_atom _ flags names _ hskip (by decide) (by decide)]
    rfl
  · rw [readBody_backslashes]
    refine (readBody_backslash flags names _ '$' (.inr rfl) []).trans ?_
    exact readBody_nil _ flags names _ flags.skip_nil

end

end DataTree.Pattern
