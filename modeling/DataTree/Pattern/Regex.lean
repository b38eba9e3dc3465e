import DataTree.Text.Property

/-!
# DataTree.Pattern.Regex

Regular expressions after reading, and what they mean.

`Matches text r i j` says that `r` matches the stretch of `text` from position
`i` to position `j`.  Positions lie between characters: position 0 is before
the first one.  A condition (`Look`) matches an empty stretch and only looks at
the characters on either side.
-/

namespace DataTree.Pattern

open Text (CharSet)

/-! ## Conditions on a position -/

/-- What a condition on words asks for. -/
inductive WordEdge
  | boundary | inside | start | stop | startHalf | stopHalf
  deriving DecidableEq, Repr

/-- A condition on a position in the text. -/
inductive Look where
  | textStart
  | textEnd
  /-- The start of a line; with `crlf` a return ends a line as well. -/
  | lineStart (crlf : Bool)
  | lineEnd (crlf : Bool)
  /-- A condition on words; with `ascii` only ASCII characters form words. -/
  | word (edge : WordEdge) (ascii : Bool)
  deriving DecidableEq, Repr

/-- The characters that form words. -/
def wordSet (ascii : Bool) : CharSet :=
  if ascii then CharSet.ranges [('0', '9'), ('A', 'Z'), ('_', '_'), ('a', 'z')]
  else Text.Property.wordSet

/-- Whether a condition holds between two characters; there is none before the
first position and none behind the last. -/
def Look.holds (before after : Option Char) : Look → Bool
  | textStart => before.isNone
  | textEnd => after.isNone
  | lineStart false => before.isNone || before == some '\n'
  | lineStart true =>
    before.isNone || before == some '\n' || (before == some '\r' && after != some '\n')
  | lineEnd false => after.isNone || after == some '\n'
  | lineEnd true =>
    after.isNone || after == some '\r' || (after == some '\n' && before != some '\r')
  | word edge ascii =>
    let isIn (c : Option Char) := c.any (wordSet ascii).contains
    match edge with
    | .boundary => isIn before != isIn after
    | .inside => isIn before == isIn after
    | .start => !isIn before && isIn after
    | .stop => isIn before && !isIn after
    | .startHalf => !isIn before
    | .stopHalf => !isIn after

/-! ## Expressions and their meaning -/

/-- A regular expression. -/
inductive Regex where
  /-- The empty stretch. -/
  | empty
  /-- One character of a set. -/
  | one (s : CharSet)
  /-- A condition on the position. -/
  | look (l : Look)
  | seq (a b : Regex)
  | alt (a b : Regex)
  /-- At least `min` times and at most `max` times, where there is such a bound. -/
  | rep (r : Regex) (min : Nat) (max : Option Nat)
  /-- A part in parentheses, which may keep what it matches. -/
  | group (captures : Bool) (r : Regex)
  deriving DecidableEq, Repr

/-- The character before a position. -/
def charBefore (text : List Char) : Nat → Option Char
  | 0 => none
  | i + 1 => text[i]?

/-- `r` matches the stretch of the text from one position to the other. -/
inductive Matches (text : List Char) : Regex → Nat → Nat → Prop where
  | empty {i : Nat} : Matches text .empty i i
  | one {s : CharSet} {i : Nat} {c : Char} (at_i : text[i]? = some c) (mem : s.contains c = true) :
      Matches text (.one s) i (i + 1)
  | look {l : Look} {i : Nat} (le : i ≤ text.length)
      (holds : l.holds (charBefore text i) text[i]? = true) : Matches text (.look l) i i
  | seq {a b : Regex} {i j k : Nat} (left : Matches text a i j) (right : Matches text b j k) :
      Matches text (.seq a b) i k
  | altLeft {a b : Regex} {i j : Nat} (left : Matches text a i j) : Matches text (.alt a b) i j
  | altRight {a b : Regex} {i j : Nat} (right : Matches text b i j) : Matches text (.alt a b) i j
  | group {captures : Bool} {r : Regex} {i j : Nat} (body : Matches text r i j) :
      Matches text (.group captures r) i j
  | repNil {r : Regex} {max : Option Nat} {i : Nat} : Matches text (.rep r 0 max) i i
  | repStep {r : Regex} {min : Nat} {max : Option Nat} {i j k : Nat} (room : max ≠ some 0)
      (first : Matches text r i j)
      (rest : Matches text (.rep r (min - 1) (max.map (· - 1))) j k) :
      Matches text (.rep r min max) i k

/-- `r` matches some stretch of the text. -/
def Occurs (text : List Char) (r : Regex) : Prop :=
  ∃ i j, i ≤ text.length ∧ Matches text r i j

end DataTree.Pattern
