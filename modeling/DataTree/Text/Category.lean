import DataTree.Text.Category.Table
import DataTree.Text.CharSet

/-!
# DataTree.Text.Category

The general category of a character, as edition 16.0 of Unicode assigns it: every
code point has exactly one.  Unassigned code points have the category `unassigned`.
`category` looks a single character up, `Category.set` gives all characters with
one of several categories.
-/

namespace DataTree.Text

/-- The values of the Unicode property General_Category. -/
inductive Category
  | upperLetter | lowerLetter | titleLetter | modifierLetter | otherLetter
  | nonspacingMark | spacingMark | enclosingMark
  | decimalNumber | letterNumber | otherNumber
  | connectorPunctuation | dashPunctuation | openPunctuation | closePunctuation
  | initialPunctuation | finalPunctuation | otherPunctuation
  | mathSymbol | currencySymbol | modifierSymbol | otherSymbol
  | spaceSeparator | lineSeparator | paragraphSeparator
  | control | format | surrogate | privateUse | unassigned
  deriving DecidableEq, Repr, Inhabited

namespace Category

/-- The constructors in the order of their numbers in the table. -/
def all : Array Category := #[
  upperLetter, lowerLetter, titleLetter, modifierLetter, otherLetter,
  nonspacingMark, spacingMark, enclosingMark,
  decimalNumber, letterNumber, otherNumber,
  connectorPunctuation, dashPunctuation, openPunctuation, closePunctuation,
  initialPunctuation, finalPunctuation, otherPunctuation,
  mathSymbol, currencySymbol, modifierSymbol, otherSymbol,
  spaceSeparator, lineSeparator, paragraphSeparator,
  control, format, surrogate, privateUse, unassigned]

/-- The runs of the table for looking up by number. -/
def runArray : Array Nat := runs.toArray

/-- The last run in `[lo, hi)` that does not start after `code`, by halving the
interval; `fuel` bounds the number of halvings. -/
def findRun (code : Nat) : (fuel lo hi : Nat) → Nat
  | 0, lo, _ => lo
  | fuel + 1, lo, hi =>
    if hi ≤ lo + 1 then lo
    else
      let mid := (lo + hi) / 2
      if runArray.getD mid 0 / 32 ≤ code then findRun code fuel mid hi
      else findRun code fuel lo mid

/-- The category of the code point `code`. -/
def ofCode (code : Nat) : Category :=
  let run := runArray.getD (findRun code runArray.size 0 runArray.size) 0
  all.getD (run % 32) .unassigned

/-- The characters with one of the categories asked for. -/
def set (among : Category → Bool) : CharSet :=
  CharSet.ofRuns 32 (fun number => among (all.getD number .unassigned)) runs

/-- The characters of one category. -/
def only (k : Category) : CharSet := set (· == k)

def isLetter : Category → Bool
  | upperLetter | lowerLetter | titleLetter | modifierLetter | otherLetter => true
  | _ => false

def isMark : Category → Bool
  | nonspacingMark | spacingMark | enclosingMark => true
  | _ => false

def isNumber : Category → Bool
  | decimalNumber | letterNumber | otherNumber => true
  | _ => false

def isPunctuation : Category → Bool
  | connectorPunctuation | dashPunctuation | openPunctuation | closePunctuation
  | initialPunctuation | finalPunctuation | otherPunctuation => true
  | _ => false

def isSymbol : Category → Bool
  | mathSymbol | currencySymbol | modifierSymbol | otherSymbol => true
  | _ => false

def isSeparator : Category → Bool
  | spaceSeparator | lineSeparator | paragraphSeparator => true
  | _ => false

/-- Controls, format characters, surrogates, private use and unassigned code points. -/
def isOther : Category → Bool
  | control | format | surrogate | privateUse | unassigned => true
  | _ => false

end Category

/-- The general category of a character. -/
def category (c : Char) : Category := Category.ofCode c.toNat

end DataTree.Text
