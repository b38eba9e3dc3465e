import DataTree.Proofs.Path.Segments
import Mathlib.Data.List.Destutter
import Mathlib.Data.List.DropRight

/-!
# DataTree.Proofs.Path.Tidy

Joining the segments of a path.

Cutting and joining are list facts, once each character is marked with whether it is a
slash that separates (`marked`): segments are then what stands between the marks, where
anything does.  Put together again with a slash between any two they are the path that
`tidy` makes (`intercalate_segments`): the separating slashes at both ends are gone, and
of several in a row one is left.
-/

namespace DataTree

namespace Text

section Spans

variable {α : Type} [BEq α] {x : α} {xs : List α}

/-- Not both elements are `x`. -/
def NotBoth (x a b : α) : Prop := ¬ (a == x && b == x)

instance (x : α) : DecidableRel (NotBoth x) := fun a b =>
  inferInstanceAs (Decidable (¬ (a == x && b == x)))

/-- A list without `x` at both ends, and with `x` only once where it stands several times in
a row. -/
def squeeze (x : α) (xs : List α) : List α :=
  ((xs.destutter (NotBoth x)).dropWhile (· == x)).rdropWhile (· == x)

/-- What stands between the `x`s of a list, where anything does. -/
def spans (x : α) (xs : List α) : List (List α) :=
  (xs.splitOn x).filter fun span => !span.isEmpty

@[simp] theorem spans_nil (x : α) : spans x [] = [] := rfl

/-- No two neighbours are `x`. -/
theorem isChain_squeeze (x : α) (xs : List α) : (squeeze x xs).IsChain (NotBoth x) := by
  have hchain := List.isChain_destutter (NotBoth x) xs
  obtain ⟨front, hfront⟩ := List.dropWhile_suffix (l := xs.destutter (NotBoth x)) (· == x)
  obtain ⟨back, hback⟩ := List.rdropWhile_prefix (· == x)
    ((xs.destutter (NotBoth x)).dropWhile (· == x))
  rw [← hfront, ← hback] at hchain
  exact hchain.right_of_append.left_of_append

variable [LawfulBEq α]

/-- An `x` in the middle separates what stands before from what stands behind. -/
theorem spans_append_cons (x : α) (as bs : List α) :
    spans x (as ++ x :: bs) = spans x as ++ spans x bs := by
  rw [spans, List.splitOn_append_cons_self, List.filter_append]
  rfl

theorem spans_cons_self (x : α) (xs : List α) : spans x (x :: xs) = spans x xs :=
  spans_append_cons x [] xs

/-! ## Squeezing keeps the spans -/

theorem spans_dropWhile (x : α) (xs : List α) : spans x (xs.dropWhile (· == x)) = spans x xs := by
  induction xs with
  | nil => rfl
  | cons a xs ih =>
    rw [List.dropWhile_cons]
    split
    · next ha => rw [ih, eq_of_beq ha, spans_cons_self]
    · rfl

theorem spans_rdropWhile (x : α) (xs : List α) :
    spans x (xs.rdropWhile (· == x)) = spans x xs := by
  induction xs using List.reverseRecOn with
  | nil => rfl
  | append_singleton xs a ih =>
    rw [List.rdropWhile_concat]
    split
    · next ha => rw [ih, eq_of_beq ha, spans_append_cons, spans_nil, List.append_nil]
    · rfl

/-- Of two `x`s in a row one may go; `front` is what has been kept already. -/
theorem spans_append_destutter' (front : List α) (a : α) (xs : List α) :
    spans x (front ++ xs.destutter' (NotBoth x) a) = spans x (front ++ a :: xs) := by
  induction xs generalizing front a with
  | nil => rfl
  | cons b xs ih =>
    rw [List.destutter'_cons]
    split
    · have hkept := ih (front ++ [a]) b
      rwa [List.append_assoc, List.append_assoc] at hkept
    · next hab =>
      obtain ⟨rfl, rfl⟩ : a = x ∧ b = x := by simpa [NotBoth] using hab
      rw [ih, spans_append_cons, spans_append_cons, spans_cons_self]

theorem spans_destutter (x : α) (xs : List α) :
    spans x (xs.destutter (NotBoth x)) = spans x xs := by
  cases xs with
  | nil => rfl
  | cons a xs => exact spans_append_destutter' [] a xs

/-- Squeezing does not change what stands between. -/
theorem spans_squeeze (x : α) (xs : List α) : spans x (squeeze x xs) = spans x xs := by
  rw [squeeze, spans_rdropWhile, spans_dropWhile, spans_destutter]

/-! ## Joining the spans -/

theorem splitOn_cons_of_ne {a : α} (h : a ≠ x) (xs : List α) :
    ∃ first rest, xs.splitOn x = first :: rest ∧ (a :: xs).splitOn x = (a :: first) :: rest := by
  obtain ⟨first, rest, hxs⟩ := List.exists_cons_of_ne_nil (List.splitOn_ne_nil x xs)
  refine ⟨first, rest, hxs, ?_⟩
  rw [List.splitOn] at hxs ⊢
  rw [List.splitOnP_cons_eq_if_modifyHead, if_neg (by simpa using h), hxs, List.modifyHead_cons]

/-- Where no two `x`s stand in a row and none at the end, only the first piece can be empty,
and it is only if `x` stands at the front. -/
theorem nil_notMem_splitOn (hne : xs ≠ []) (hchain : xs.IsChain (NotBoth x))
    (hlast : xs.getLast? ≠ some x) :
    [] ∉ (xs.splitOn x).tail ∧ (xs.head? ≠ some x → [] ∉ xs.splitOn x) := by
  induction xs with
  | nil => exact absurd rfl hne
  | cons a xs ih =>
    obtain ⟨hnext, hchain⟩ := List.isChain_cons.1 hchain
    by_cases ha : a = x
    · subst ha
      have hsplit : (a :: xs).splitOn a = [] :: xs.splitOn a := List.splitOn_append_cons_self [] xs
      cases xs with
      | nil => simp at hlast
      | cons b xs =>
        have hb : b ≠ a := fun hb => hnext b rfl (by simp [hb])
        rw [List.getLast?_cons_cons] at hlast
        rw [hsplit]
        refine ⟨(ih (List.cons_ne_nil _ _) hchain hlast).2 (by simpa using hb), fun hhead => ?_⟩
        simp at hhead
    · obtain ⟨first, rest, hxs, hsplit⟩ := splitOn_cons_of_ne ha xs
      have hrest : [] ∉ rest := by
        cases xs with
        | nil =>
          obtain rfl : [] = rest := (List.cons.inj hxs).2
          exact List.not_mem_nil
        | cons b xs =>
          rw [List.getLast?_cons_cons] at hlast
          have htail := (ih (List.cons_ne_nil _ _) hchain hlast).1
          rwa [hxs] at htail
      rw [hsplit]
      exact ⟨hrest, fun _ hm => (List.mem_cons.1 hm).elim (by simp) hrest⟩

/-- Such a list is its spans with `x` between them. -/
theorem intercalate_spans_of_isChain (hchain : xs.IsChain (NotBoth x)) (hfirst : xs.head? ≠ some x)
    (hlast : xs.getLast? ≠ some x) : [x].intercalate (spans x xs) = xs := by
  by_cases hne : xs = []
  · subst hne
    rfl
  · have hall : spans x xs = xs.splitOn x := by
      refine List.filter_eq_self.2 fun span hspan => ?_
      have hno := (nil_notMem_splitOn hne hchain hlast).2 hfirst
      simpa using fun hnil : span = [] => hno (hnil ▸ hspan)
    rw [hall, List.intercalate_splitOn]

theorem head?_squeeze_ne (x : α) (xs : List α) : (squeeze x xs).head? ≠ some x := by
  intro hhead
  have hno := List.head?_dropWhile_not (· == x) (xs.destutter (NotBoth x))
  obtain ⟨back, hback⟩ := List.rdropWhile_prefix (· == x)
    ((xs.destutter (NotBoth x)).dropWhile (· == x))
  rw [squeeze] at hhead
  rw [← hback, List.head?_append, hhead] at hno
  simp at hno

theorem getLast?_squeeze_ne (x : α) (xs : List α) : (squeeze x xs).getLast? ≠ some x := by
  intro hlast
  obtain ⟨front, hfront⟩ := List.getLast?_eq_some_iff.1 hlast
  rw [squeeze] at hfront
  have hno := List.rdropWhile_last_not (· == x) _ (by rw [hfront]; simp)
  simp only [hfront] at hno
  simp at hno

/-- The spans of a list with `x` between them. -/
theorem intercalate_spans (x : α) (xs : List α) : [x].intercalate (spans x xs) = squeeze x xs := by
  rw [← spans_squeeze]
  exact intercalate_spans_of_isChain (isChain_squeeze x xs) (head?_squeeze_ne x xs)
    (getLast?_squeeze_ne x xs)

end Spans

theorem map_intercalate {α β : Type} (f : α → β) (x : α) (ls : List (List α)) :
    ([x].intercalate ls).map f = [f x].intercalate (ls.map (·.map f)) := by
  induction ls with
  | nil => rfl
  | cons as ls ih =>
    cases ls with
    | nil => simp
    | cons bs ls =>
      rw [List.intercalate_cons_cons, List.map_append, List.map_append, ih]
      simp only [List.map_cons, List.intercalate_cons_cons, List.map_nil]

end Text

namespace Path

/-! ## Marks -/

/-- The characters of a text, each with whether it is a slash that separates; `s` is where
the text starts. -/
def marked (s : Nesting) : List Char → List (Char × Bool)
  | [] => []
  | c :: cs => (c, c == '/' && s.isOutside) :: marked (s.step c) cs

/-- A slash that separates. -/
def slash : Char × Bool := ('/', true)

/-- A path without the slashes that make no difference: those that separate at both ends, and
all but one of several in a row. -/
def tidy (path : List Char) : List Char := (Text.squeeze slash (marked {} path)).map Prod.fst

/-- The stretches of a path are what its slashes split it into, empty pieces included. -/
theorem stretches_eq (s : Nesting) (cs : List Char) :
    stretches s cs = ((marked s cs).splitOn slash).map (·.map Prod.fst) := by
  induction cs generalizing s with
  | nil => rfl
  | cons c cs ih =>
    rw [stretches, marked]
    by_cases hsep : c = '/' ∧ s.isOutside = true
    · have hmark : (c, c == '/' && s.isOutside) = slash := by simp [hsep, slash]
      have hsplit : (slash :: marked (s.step c) cs).splitOn slash
          = [] :: (marked (s.step c) cs).splitOn slash := List.splitOn_append_cons_self [] _
      rw [if_pos hsep, hmark, hsplit, List.map_cons, ← ih, hsep.1, Nesting.step_slash]
      rfl
    · have hmark : (c, c == '/' && s.isOutside) ≠ slash := by simpa [slash] using hsep
      obtain ⟨first, rest, hcs, hsplit⟩ := Text.splitOn_cons_of_ne hmark (marked (s.step c) cs)
      rw [if_neg hsep, hsplit, ih, hcs]
      rfl

/-- The segments of a path are what stands between its slashes. -/
theorem segments_eq (path : List Char) :
    segments path = (Text.spans slash (marked {} path)).map (·.map Prod.fst) := by
  rw [segments, stretches_eq, List.filter_map, Text.spans]
  exact congrArg _ (List.filter_congr fun span _ => by simp)

/-- **Joining**: the segments with slashes between them are the tidy path. -/
theorem intercalate_segments (path : List Char) :
    ['/'].intercalate (segments path) = tidy path := by
  rw [tidy, ← Text.intercalate_spans, Text.map_intercalate, ← segments_eq]
  rfl

/-- Slashes in predicates stay as they are. -/
example : tidy "//a//b[x=1//2]//".toList = "a/b[x=1//2]".toList := by decide +kernel

end Path

end DataTree
