import DataTree.Pattern.Regex

/-!
# DataTree.Pattern.Outline

Expressions in a simplified form, as their size is measured.

* A set of one character is that character, and neighbouring characters are one
  literal.
* Sequences and alternatives are flat: `seq` and `alt` nest to the right only, and
  `empty` is no part of a sequence.
* Alternatives that are all single characters, or all sets, are one set; what all
  alternatives start with stands before them.
* A repetition of something without width is done once at most, one that is done
  exactly once is no repetition, and one that is never done is empty.
* A group that does not capture leaves no trace.
-/

namespace DataTree.Pattern

open Text (CharSet)

/-- A simplified expression. -/
inductive Outline where
  | empty
  | literal (cs : List Char)
  | set (s : CharSet)
  | look (l : Look)
  | capture (o : Outline)
  | rep (o : Outline) (min : Nat) (max : Option Nat)
  | seq (a b : Outline)
  | alt (a b : Outline)
  deriving DecidableEq, Repr

namespace Outline

/-! ## Sequences -/

/-- The parts of a sequence. -/
def items : Outline → List Outline
  | empty => []
  | seq a b => a :: b.items
  | o => [o]

/-- The sequence of some parts. -/
def ofItems : List Outline → Outline
  | [] => empty
  | [o] => o
  | o :: os => seq o (ofItems os)

/-- Put a part in front of others; literals join. -/
def addItem : Outline → List Outline → List Outline
  | literal cs, literal ds :: os => literal (cs ++ ds) :: os
  | o, os => o :: os

/-- One outline after the other. -/
def append (a b : Outline) : Outline := ofItems (a.items.foldr addItem b.items)

/-! ## Alternatives -/

/-- The branches of alternatives. -/
def branches : Outline → List Outline
  | alt a b => a :: b.branches
  | o => [o]

/-- The alternatives of some branches; there is at least one. -/
def ofBranches : List Outline → Outline
  | [] => set .empty
  | [o] => o
  | o :: os => alt o (ofBranches os)

/-- The character of a literal of one. -/
def char? : Outline → Option Char
  | literal [c] => some c
  | _ => none

/-- The set of an outline that is one. -/
def set? : Outline → Option CharSet
  | set s => some s
  | _ => none

/-- A set of characters; that of a single one is a literal. -/
def ofSet (s : CharSet) : Outline :=
  match s.single? with
  | some c => literal [c]
  | none => set s

/-- Whether nothing is kept of what is matched. -/
def isCaptureFree : Outline → Bool
  | empty | literal _ | set _ | look _ => true
  | capture _ => false
  | rep o _ _ => o.isCaptureFree
  | seq a b | alt a b => a.isCaptureFree && b.isCaptureFree

/-- The parts that two sequences have in common at their start; parts that capture are
never the same. -/
def commonStart : List Outline → List Outline → List Outline
  | a :: as, b :: bs => if a = b ∧ a.isCaptureFree then a :: commonStart as bs else []
  | _, _ => []

/-- The parts of an outline with more than one of them; none otherwise. -/
def sequence? : Outline → List Outline
  | seq a b => a :: b.items
  | _ => []

/-- The parts that all branches start with. -/
def sharedStart : List Outline → List Outline
  | [] => []
  | o :: os => os.foldl (fun shared other => commonStart shared other.sequence?) o.sequence?

/-- The alternatives of branches, simplified.  `fuel` bounds how often a common start is
split off. -/
def alternatives : (fuel : Nat) → List Outline → Outline
  | 0, os => ofBranches os
  | fuel + 1, os =>
    let os := os.flatMap branches
    if os.length ≤ 1 then ofBranches os
    else
      match os.mapM char?, os.mapM set? with
      | some cs, _ => ofSet (CharSet.unionAll (cs.map CharSet.single))
      | none, some sets => ofSet (CharSet.unionAll sets)
      | none, none =>
        match sharedStart os with
        | [] => ofBranches os
        | shared =>
          let rests := os.map fun o => ofItems (o.items.drop shared.length)
          (ofItems shared).append (alternatives fuel rests)

/-! ## Repetitions -/

/-- Whether no match takes any characters. -/
def isNarrow : Outline → Bool
  | empty | look _ => true
  | literal _ | set _ => false
  | capture o => o.isNarrow
  | rep o _ max => max.isSome && o.isNarrow
  | seq a b | alt a b => a.isNarrow && b.isNarrow

/-- Repeat an outline. -/
def repeated (o : Outline) (min : Nat) (max : Option Nat) : Outline :=
  let (min, max) :=
    if o.isNarrow then (Nat.min min 1, some (Nat.min (max.getD 1) 1)) else (min, max)
  if max = some 0 then empty
  else if min = 1 ∧ max = some 1 then o
  else rep o min max

end Outline

/-! ## The outline of an expression -/

/-- The outline of an expression as a list of branches. -/
def Regex.branches : Regex → List Outline
  | .empty => [.empty]
  | .one s => [.ofSet s]
  | .look l => [.look l]
  | .seq a b => [(joined a.branches).append (joined b.branches)]
  | .alt a b => joined a.branches :: b.branches
  | .rep r min max => [(joined r.branches).repeated min max]
  | .group captures r =>
    if captures then [.capture (joined r.branches)] else [joined r.branches]
where
  /-- The outline of branches. -/
  joined (os : List Outline) : Outline := .alternatives (os.length + 1) os

/-- The simplified form of an expression. -/
def Regex.outline (r : Regex) : Outline := Regex.branches.joined r.branches

end DataTree.Pattern
