import DataTree.Assoc

/-!
# DataTree.Scalar.Enumeration

Enumerations: names with numbers, in the order of declaration.

Numbers that are given stay, wherever they are given.  Every other name then
gets, in the order of declaration, the least natural number that is not in use
yet.  A name that is declared twice has its last number in its first place.
-/

namespace DataTree

/-- The names of an enumeration and their numbers. -/
structure Enumeration where
  members : List (String × Int)
  deriving DecidableEq, Repr

namespace Enumeration

/-- The least number from `n` on that is not in use; `fuel` bounds the numbers in
use that have to be passed. -/
def leastFree (used : List Int) : (fuel : Nat) → (n : Nat) → Nat
  | 0, n => n
  | fuel + 1, n => if used.contains (n : Int) then leastFree used fuel (n + 1) else n

/-- Number the entries: `used` are the numbers in use, and none below `next` is
free. -/
def number (used : List Int) (next : Nat) : List (String × Option Int) → List (String × Int)
  | [] => []
  | (name, some n) :: rest => (name, n) :: number used next rest
  | (name, none) :: rest =>
    let n := leastFree used (used.length + 1) next
    (name, n) :: number (n :: used) n rest

/-- The numbers that are given. -/
def givenNumbers (entries : List (String × Option Int)) : List Int :=
  entries.filterMap Prod.snd

/-- The enumeration with these entries. -/
def ofEntries (entries : List (String × Option Int)) : Enumeration :=
  ⟨Assoc.ofList (number (givenNumbers entries) 0 entries)⟩

/-- Whether a name is declared. -/
def contains (e : Enumeration) (name : String) : Bool := Assoc.contains name e.members

/-- The number of a name. -/
def number? (e : Enumeration) (name : String) : Option Int := Assoc.get? name e.members

/-- The names in the order of declaration. -/
def names (e : Enumeration) : List String := Assoc.keys e.members

/-- Entries with a number are passed over when the others are counted. -/
example : (ofEntries [("a", none), ("b", some 0), ("c", none), ("d", some (-3))]).members
    = [("a", 1), ("b", 0), ("c", 2), ("d", -3)] := by decide +kernel

end Enumeration

end DataTree
