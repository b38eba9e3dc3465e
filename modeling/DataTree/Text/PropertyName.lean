import DataTree.Text.Age
import DataTree.Text.Boundary
import DataTree.Text.Pieces

/-!
# DataTree.Text.PropertyName

Sets of characters by the names that Unicode gives to properties.

    query = name | name , ( "=" | ":" ) , value | name , "!=" , value

A single name is a yes-or-no property, a general category or a script, looked for in
this order.  A name with a value is one of seven properties, and `!=` stands for all
characters that do not have the value.  Neither case nor separators matter, nor does a
leading `is`.
-/

namespace DataTree.Text

/-! ## Normal form of names -/

/-- The characters of a name that matter: those of ASCII but separators, in lower
case. -/
def plainName (name : List Char) : List Char :=
  (name.filter fun c => c.toNat < 128 && c != ' ' && c != '-' && c != '_').map Char.toLower

/-- The normal form of a name.  A leading `is` is dropped before anything else, except
that no name turns into `c` in this way. -/
def normalName (name : List Char) : String :=
  match name with
  | i :: s :: rest =>
    if i.toLower = 'i' ∧ s.toLower = 's' then
      match plainName rest with
      | ['c'] => "isc"
      | plain => String.ofList plain
    else String.ofList (plainName name)
  | _ => String.ofList (plainName name)

/-! ## General categories -/

namespace Category

/-- The categories that a name stands for: one of them, or a group. -/
def named? : String → Option (Category → Bool)
  | "l" | "letter" => some isLetter
  | "lc" | "casedletter" =>
    some fun k => k == upperLetter || k == lowerLetter || k == titleLetter
  | "lu" | "uppercaseletter" => some (· == upperLetter)
  | "ll" | "lowercaseletter" => some (· == lowerLetter)
  | "lt" | "titlecaseletter" => some (· == titleLetter)
  | "lm" | "modifierletter" => some (· == modifierLetter)
  | "lo" | "otherletter" => some (· == otherLetter)
  | "m" | "mark" | "combiningmark" => some isMark
  | "mn" | "nonspacingmark" => some (· == nonspacingMark)
  | "mc" | "spacingmark" => some (· == spacingMark)
  | "me" | "enclosingmark" => some (· == enclosingMark)
  | "n" | "number" => some isNumber
  | "nd" | "decimalnumber" | "digit" => some (· == decimalNumber)
  | "nl" | "letternumber" => some (· == letterNumber)
  | "no" | "othernumber" => some (· == otherNumber)
  | "p" | "punctuation" | "punct" => some isPunctuation
  | "pc" | "connectorpunctuation" => some (· == connectorPunctuation)
  | "pd" | "dashpunctuation" => some (· == dashPunctuation)
  | "ps" | "openpunctuation" => some (· == openPunctuation)
  | "pe" | "closepunctuation" => some (· == closePunctuation)
  | "pi" | "initialpunctuation" => some (· == initialPunctuation)
  | "pf" | "finalpunctuation" => some (· == finalPunctuation)
  | "po" | "otherpunctuation" => some (· == otherPunctuation)
  | "s" | "symbol" => some isSymbol
  | "sm" | "mathsymbol" => some (· == mathSymbol)
  | "sc" | "currencysymbol" => some (· == currencySymbol)
  | "sk" | "modifiersymbol" => some (· == modifierSymbol)
  | "so" | "othersymbol" => some (· == otherSymbol)
  | "z" | "separator" => some isSeparator
  | "zs" | "spaceseparator" => some (· == spaceSeparator)
  | "zl" | "lineseparator" => some (· == lineSeparator)
  | "zp" | "paragraphseparator" => some (· == paragraphSeparator)
  | "c" | "other" => some isOther
  | "cc" | "control" | "cntrl" => some (· == control)
  | "cf" | "format" => some (· == format)
  | "co" | "privateuse" => some (· == privateUse)
  | "cn" | "unassigned" => some (· == unassigned)
  | _ => none

/-- The characters of a category, a group of categories, or one of three large sets
that are named like categories. -/
def setNamed? (name : String) : Option CharSet :=
  match name with
  | "any" => some .all
  | "assigned" => some (set (· != .unassigned))
  | "ascii" => some (CharSet.codes 0 127)
  | name => (named? name).map set

end Category

/-! ## Queries -/

/-- The characters of a property, a category or a script with the given normal name. -/
def setOfName? (name : String) : Option CharSet :=
  match Property.named? name with
  | some p => some p.set
  | none =>
    match Category.setNamed? name with
    | some s => some s
    | none => (Script.named? name).map Script.set

/-- The characters that have a value of a property, both given by normal names. -/
def setOfValue? (name value : String) : Option CharSet :=
  match name with
  | "gc" | "generalcategory" => Category.setNamed? value
  | "sc" | "script" => (Script.named? value).map Script.set
  | "scx" | "scriptextensions" => (Script.named? value).map Script.extendedSet
  | "age" => (Age.named? value).map Age.set
  | "gcb" | "graphemeclusterbreak" => (ClusterBreak.named? value).map ClusterBreak.set
  | "wb" | "wordbreak" => (WordBreak.named? value).map WordBreak.set
  | "sb" | "sentencebreak" => (SentenceBreak.named? value).map SentenceBreak.set
  | _ => none

/-- The characters that a query asks for, and whether it asks for all others instead. -/
def setOfQuery? (query : List Char) : Option (Bool × CharSet) :=
  match cutAt? ['!', '='] query with
  | some (name, value) => (setOfValue? (normalName name) (normalName value)).map (true, ·)
  | none =>
    match (cutAt? [':'] query).orElse fun _ => cutAt? ['='] query with
    | some (name, value) => (setOfValue? (normalName name) (normalName value)).map (false, ·)
    | none => (setOfName? (normalName query)).map (false, ·)

end DataTree.Text
