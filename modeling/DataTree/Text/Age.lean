import DataTree.Numeral
import DataTree.Text.Age.Table
import DataTree.Text.CharSet

/-!
# DataTree.Text.Age

Editions of Unicode and the characters that they assign.
-/

namespace DataTree.Text

/-- An edition, by its number in the table. -/
structure Age where
  number : Nat
  deriving DecidableEq, Repr

namespace Age

/-- The two names of an edition: with a point between the numbers, and with a `v` in
front of them. -/
def namesOf (edition : Nat × Nat) : List String :=
  let (major, minor) := (Numeral.natText edition.1, Numeral.natText edition.2)
  [major ++ "." ++ minor, "v" ++ major ++ minor]

/-- An edition by its name. -/
def named? (name : String) : Option Age :=
  (editions.findIdx? fun edition => (namesOf edition).contains name).map mk

/-- The characters that an edition has: those which it or an earlier one assigned. -/
def set (a : Age) : CharSet := CharSet.ofRuns 32 (· ≤ a.number) runs

end Age

end DataTree.Text
