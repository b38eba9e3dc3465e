/-!
# DataTree.Text.Pieces

Cutting a text at separator characters.

* `pieces p cs` is never empty: `n` separators leave `n + 1` pieces, some of
  which may be empty, and joining them with the separators gives the text
  back;
* `cutAt? pat cs` splits at the first place where the word `pat` occurs.
-/

namespace DataTree.Text

/-- Put one more character at the front of the first piece. -/
def consHead (c : Char) : List (List Char) → List (List Char)
  | [] => [[c]]
  | piece :: rest => (c :: piece) :: rest

/-- The pieces between the characters that satisfy `sep`; a text without
separators is its own only piece. -/
def pieces (sep : Char → Bool) : List Char → List (List Char)
  | [] => [[]]
  | c :: cs => if sep c then [] :: pieces sep cs else consHead c (pieces sep cs)

@[simp] theorem pieces_nil (sep : Char → Bool) : pieces sep [] = [[]] := rfl

theorem pieces_cons_of_sep {sep : Char → Bool} {c : Char} (h : sep c = true) (cs : List Char) :
    pieces sep (c :: cs) = [] :: pieces sep cs := by
  simp [pieces, h]

theorem pieces_cons_of_not_sep {sep : Char → Bool} {c : Char} (h : sep c = false)
    (cs : List Char) : pieces sep (c :: cs) = consHead c (pieces sep cs) := by
  simp [pieces, h]

theorem consHead_ne_nil (c : Char) (ps : List (List Char)) : consHead c ps ≠ [] := by
  cases ps <;> simp [consHead]

/-- There is always a piece, even of the empty text. -/
theorem pieces_ne_nil (sep : Char → Bool) (cs : List Char) : pieces sep cs ≠ [] := by
  cases cs with
  | nil => simp
  | cons c cs =>
    cases h : sep c
    · rw [pieces_cons_of_not_sep h]; exact consHead_ne_nil c _
    · simp [pieces_cons_of_sep h]

/-- Without separators there is a single piece. -/
theorem pieces_eq_self {sep : Char → Bool} {cs : List Char} (h : ∀ c ∈ cs, sep c = false) :
    pieces sep cs = [cs] := by
  induction cs with
  | nil => rfl
  | cons c cs ih =>
    rw [pieces_cons_of_not_sep (h c List.mem_cons_self),
      ih fun d hd => h d (List.mem_cons_of_mem c hd)]
    rfl

/-- A separator cuts a text into what is before it and what is behind it. -/
theorem pieces_append_cons {sep : Char → Bool} {c : Char} (hc : sep c = true) (as bs : List Char) :
    pieces sep (as ++ c :: bs) = pieces sep as ++ pieces sep bs := by
  induction as with
  | nil => rw [List.nil_append, pieces_cons_of_sep hc, pieces_nil, List.singleton_append]
  | cons a as ih =>
    rw [List.cons_append]
    cases ha : sep a with
    | true => rw [pieces_cons_of_sep ha, pieces_cons_of_sep ha, ih, List.cons_append]
    | false =>
      rw [pieces_cons_of_not_sep ha, pieces_cons_of_not_sep ha, ih]
      cases hp : pieces sep as with
      | nil => exact absurd hp (pieces_ne_nil sep as)
      | cons piece rest => rfl

/-- The text before and after the first occurrence of `pat`. -/
def cutAt? (pat : List Char) : List Char → Option (List Char × List Char)
  | [] => if pat.isEmpty then some ([], []) else none
  | c :: cs =>
    if pat.isPrefixOf (c :: cs) then some ([], (c :: cs).drop pat.length)
    else (cutAt? pat cs).map fun (before, after) => (c :: before, after)

end DataTree.Text
