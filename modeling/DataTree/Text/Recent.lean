import DataTree.Text.Category
import DataTree.Text.Property

/-!
# DataTree.Text.Recent

Characters by the edition of Unicode that comes after the tables.

Patterns are about the characters of edition 16.0.  What is shown to people, and the
names that they give to groups, follow edition 17.0, which assigns further
characters and a new category to one.
-/

namespace DataTree.Text

/-- The characters whose category differs between the editions, in runs. -/
def recentRuns : List (Nat × Nat × Category) := [
  (661, 661, .otherLetter), (2191, 2191, .otherLetter), (3164, 3164, .otherLetter),
  (3292, 3292, .otherLetter), (6863, 6877, .nonspacingMark), (6880, 6891, .nonspacingMark),
  (8385, 8385, .currencySymbol), (11158, 11158, .otherSymbol), (42958, 42958, .upperLetter),
  (42959, 42959, .lowerLetter), (42962, 42962, .upperLetter), (42964, 42964, .upperLetter),
  (42993, 42993, .modifierLetter), (64451, 64466, .otherSymbol), (64912, 64913, .otherSymbol),
  (64968, 64974, .otherSymbol), (67904, 67929, .otherLetter), (69317, 69317, .modifierLetter),
  (69318, 69319, .otherLetter), (69328, 69328, .otherPunctuation), (69329, 69336, .otherSymbol),
  (69370, 69371, .nonspacingMark), (72544, 72544, .nonspacingMark), (72545, 72545, .spacingMark),
  (72546, 72548, .nonspacingMark), (72549, 72549, .spacingMark), (72550, 72550, .nonspacingMark),
  (72551, 72551, .spacingMark), (73136, 73176, .otherLetter), (73177, 73177, .modifierLetter),
  (73178, 73179, .otherLetter), (73184, 73193, .decimalNumber), (93856, 93880, .upperLetter),
  (93883, 93907, .lowerLetter), (94194, 94195, .modifierLetter), (94196, 94198, .letterNumber),
  (100344, 100351, .otherLetter), (101641, 101662, .otherLetter), (101760, 101874, .otherLetter),
  (118010, 118012, .otherSymbol), (118458, 118480, .otherSymbol), (118496, 118511, .otherSymbol),
  (118512, 118512, .mathSymbol), (124608, 124638, .otherLetter), (124640, 124642, .otherLetter),
  (124643, 124643, .nonspacingMark), (124644, 124645, .otherLetter),
  (124646, 124646, .nonspacingMark), (124647, 124653, .otherLetter),
  (124654, 124655, .nonspacingMark), (124656, 124660, .otherLetter),
  (124661, 124661, .nonspacingMark), (124670, 124670, .otherLetter),
  (124671, 124671, .modifierLetter), (128728, 128728, .otherSymbol),
  (128887, 128890, .otherSymbol), (129232, 129240, .mathSymbol), (129620, 129623, .otherSymbol),
  (129674, 129674, .otherSymbol), (129678, 129678, .otherSymbol), (129736, 129736, .otherSymbol),
  (129741, 129741, .otherSymbol), (129770, 129770, .otherSymbol), (129775, 129775, .otherSymbol),
  (130042, 130042, .otherSymbol), (177978, 177983, .otherLetter), (183970, 183981, .otherLetter),
  (205744, 210041, .otherLetter)]

/-- Marks of edition 17.0 that are parts of letters. -/
def recentVowels : List Nat := [
  69370, 69372, 72544, 72552, 124643, 124644, 124646, 124647, 124654, 124656, 124661, 124662]

/-- The category that edition 17.0 assigns. -/
def recentCategory (c : Char) : Category :=
  match recentRuns.find? fun (first, last, _) => first ≤ c.toNat && c.toNat ≤ last with
  | some (_, _, k) => k
  | none => category c

/-- Alphabetic by edition 17.0. -/
def isAlphabetic (c : Char) : Bool :=
  let k := recentCategory c
  k.isLetter || k == .letterNumber || Property.alphabetic.set.contains c
    || inside false recentVowels c.toNat

/-- Alphabetic or a number of any kind by edition 17.0. -/
def isAlphanumeric (c : Char) : Bool := isAlphabetic c || (recentCategory c).isNumber

/-- Drawn together with the character before it, by edition 17.0. -/
def isExtender (c : Char) : Bool :=
  let k := recentCategory c
  k == .nonspacingMark || k == .enclosingMark || inside false Property.Table.otherExtenders c.toNat

end DataTree.Text
