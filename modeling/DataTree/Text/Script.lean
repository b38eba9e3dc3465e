import DataTree.Text.CharSet
import DataTree.Text.Script.Extensions
import DataTree.Text.Script.Table

/-!
# DataTree.Text.Script

Scripts and the characters that are written in them.  Most characters belong to one
script (`set`); some are shared by several (`extendedSet`).
-/

namespace DataTree.Text

/-- A script, by its number in the tables. -/
structure Script where
  number : Nat
  deriving DecidableEq, Repr

namespace Script

/-- A script by one of its names, without separators and in lower case. -/
def named? (name : String) : Option Script :=
  (names.findIdx? (·.contains name)).map mk

/-- The characters of a script. -/
def set (s : Script) : CharSet := CharSet.ofRuns 256 (· == s.number) runs

/-- The characters of a script with a given name; there are none if no script has it. -/
def setNamed (name : String) : CharSet :=
  match named? name with
  | some s => s.set
  | none => .empty

/-- The characters of the runs of shared characters that satisfy a condition on their
scripts. -/
def sharedSet (among : List Nat → Bool) : CharSet :=
  let shared := extensions.filter fun (_, _, scripts) => among scripts
  CharSet.unionAll (shared.map fun (first, last, _) => CharSet.codes first last)

/-- The characters that are used in a script, alone or among others. -/
def extendedSet (s : Script) : CharSet :=
  (s.set.diff (sharedSet fun _ => true)).union (sharedSet (·.contains s.number))

end Script

end DataTree.Text
