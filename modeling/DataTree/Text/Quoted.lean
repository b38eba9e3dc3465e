import DataTree.Text.Recent

/-!
# DataTree.Text.Quoted

Quoted text, as messages and logs show names and values.  A text stands
between double quotes; the quote and the backslash are written with a
backslash before them, four controls have an escape of one letter, and any
other character that would not be seen on its own is written by its code point
in braces:

    tab, line feed, return, NUL      \t  \n  \r  \0
    not printable, or an extender    \u and the code in braces, lower-case hexadecimal

Fillers and other characters that are ignored unless they are supported are not
printable either.  Characters are those of edition 17.0 of Unicode.

A list of texts is written in brackets, its items separated by a comma and a
space.
-/

namespace DataTree.Text

/-- Whether a character is seen on its own: no control, format character, private
or unassigned code point, and no separator other than the space. -/
def isPrintable (c : Char) : Bool :=
  let k := recentCategory c
  c == ' ' || !(k.isOther || k.isSeparator || Property.defaultIgnorableSet.contains c)

/-- The escape of a character by its code point. -/
def codeEscape (c : Char) : List Char :=
  ['\\', 'u', '\x7b'] ++ Nat.toDigits 16 c.toNat ++ ['\x7d']

/-- How a character is written between the quotes. -/
def quoteChar (c : Char) : List Char :=
  if c = '\x00' then ['\\', '0']
  else if c = '\t' then ['\\', 't']
  else if c = '\r' then ['\\', 'r']
  else if c = '\n' then ['\\', 'n']
  else if c = '"' then ['\\', '"']
  else if c = '\\' then ['\\', '\\']
  else if isExtender c || !isPrintable c then codeEscape c
  else [c]

/-- A text in double quotes. -/
def quote (s : String) : String :=
  String.ofList ('"' :: s.toList.flatMap quoteChar ++ ['"'])

/-- Texts separated by `, `. -/
def commaList (items : List String) : String := ", ".intercalate items

/-- A list of texts in brackets, each of them quoted. -/
def quoteList (items : List String) : String :=
  "[" ++ commaList (items.map quote) ++ "]"

/-- DEL is a control without an escape of one letter. -/
example : quoteChar '\x7f' = ['\\', 'u', '\x7b', '7', 'f', '\x7d'] := by decide +kernel

end DataTree.Text
