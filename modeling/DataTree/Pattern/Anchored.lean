import DataTree.Pattern.Matcher
import DataTree.Pattern.Reader

/-!
# DataTree.Pattern.Anchored

Patterns that restrict whole values.

A pattern is anchored before it is read: one anchor is taken off at each end,
where there is one, and the rest is put into a group between `^` and `$`.  A
dollar sign that a backslash precedes is a character, not an anchor.
-/

namespace DataTree.Pattern

/-- The text without a circumflex at its start. -/
def dropCaret : List Char → List Char
  | '^' :: cs => cs
  | cs => cs

/-- The text without a dollar sign at its end, unless a backslash stands before
that. -/
def dropDollar (cs : List Char) : List Char :=
  match cs.reverse with
  | '$' :: '\\' :: _ => cs
  | '$' :: before => before.reverse
  | _ => cs

/-- The body of a pattern: its text without anchors. -/
def body (cs : List Char) : List Char := dropDollar (dropCaret cs)

/-- The anchored form of a pattern. -/
def anchor (cs : List Char) : List Char :=
  ['^', '(', '?', ':'] ++ body cs ++ [')', '$']

/-- Anchored patterns, each with its text and its expression. -/
structure PatternSet where
  parts : List (String × Regex)

namespace PatternSet

/-- The anchored texts in the order of declaration. -/
def sources (p : PatternSet) : List String := p.parts.map Prod.fst

/-- Read patterns in order; the first one that is no pattern is reported together
with what is wrong with it. -/
def read : List String → Except (String × Fault) PatternSet
  | [] => .ok ⟨[]⟩
  | source :: sources => do
    let text := anchor source.toList
    match Pattern.read text with
    | .error fault => throw (source, fault)
    | .ok regex =>
      let others ← read sources
      return ⟨(String.ofList text, regex) :: others.parts⟩

/-- Whether all patterns match a text. -/
def admits (p : PatternSet) (text : String) : Bool :=
  p.parts.all fun (_, regex) => regex.occursIn text.toList

end PatternSet

end DataTree.Pattern
