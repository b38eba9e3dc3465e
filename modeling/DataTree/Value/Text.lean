import DataTree.Text.Quoted
import DataTree.Value.Basic

/-!
# DataTree.Value.Text

The two texts of a value.

* `text` is the plain form: what patterns are matched against, what keys and
  path segments consist of.  A string is its own text and an absent value has
  the empty one.
* `outline` names the kind of every value and quotes strings; logs show it.
-/

namespace DataTree.Value

def boolText (b : Bool) : String := if b then "true" else "false"

mutual

/-- The plain form of a value. -/
def toText : Value → String
  | empty => ""
  | bool b => boolText b
  | int n => Numeral.intText n.toInt
  | uint n => Numeral.intText n.toNat
  | decimal d => d.text
  | text s => s
  | list items => "[" ++ Text.commaList (itemTexts items) ++ "]"
  | map fields => "\x7b" ++ Text.commaList (fieldTexts fields) ++ "\x7d"

/-- The plain forms of the items of a sequence. -/
def itemTexts : List Value → List String
  | [] => []
  | v :: vs => toText v :: itemTexts vs

/-- The pairs of a table, each as its name, a colon and the plain form. -/
def fieldTexts : List (String × Value) → List String
  | [] => []
  | (name, v) :: rest => (name ++ ": " ++ toText v) :: fieldTexts rest

end

mutual

/-- The form that names the kind of every value. -/
def outline : Value → String
  | empty => "Empty"
  | bool b => "Bool(" ++ boolText b ++ ")"
  | int n => "Int(" ++ Numeral.intText n.toInt ++ ")"
  | uint n => "Uint(" ++ Numeral.intText n.toNat ++ ")"
  | decimal d => "Decimal(" ++ d.text ++ ")"
  | text s => "String(" ++ Text.quote s ++ ")"
  | list items => "List([" ++ Text.commaList (itemOutlines items) ++ "])"
  | map fields => "Map(\x7b" ++ Text.commaList (fieldOutlines fields) ++ "\x7d)"

/-- The outlines of the items of a sequence. -/
def itemOutlines : List Value → List String
  | [] => []
  | v :: vs => outline v :: itemOutlines vs

/-- The pairs of a table with quoted names. -/
def fieldOutlines : List (String × Value) → List String
  | [] => []
  | (name, v) :: rest => (Text.quote name ++ ": " ++ outline v) :: fieldOutlines rest

end

theorem toText_text (s : String) : toText (text s) = s := by simp [toText]

end DataTree.Value
