import DataTree.Numeral
import DataTree.Pattern.Fault
import DataTree.Pattern.Regex
import DataTree.Text.Blank
import DataTree.Text.CaseFold
import DataTree.Text.PropertyName

/-!
# DataTree.Pattern.Escape

Flags and escapes: the parts of a pattern's text that have the same form inside
and outside of a class.

A backslash introduces a literal (`\.`, `\n`, a code point in hexadecimal), a set
(`\d`, `\s`, `\w`, a Unicode property, and their complements in capitals) or a
condition on words or on the ends of the text.  Under the flag `spaced` blanks
and comments between the parts of a pattern are skipped.
-/

namespace DataTree.Pattern

open Text (CharSet)

/-! ## Flags -/

/-- How the rest of a group is to be read. -/
structure Flags where
  /-- Letters stand for all their variants up to case. -/
  anyCase : Bool := false
  /-- The ends of lines count as ends of the text. -/
  multiLine : Bool := false
  /-- The dot also stands for a line feed. -/
  dotAll : Bool := false
  /-- Sets are sets of characters; otherwise they are sets of bytes. -/
  unicode : Bool := true
  /-- A return ends a line as well. -/
  crlf : Bool := false
  /-- Blanks and comments are skipped. -/
  spaced : Bool := false

/-- Drop blanks, and comments from a number sign to the end of its line. -/
def skipBlanks : (inComment : Bool) → List Char → List Char
  | _, [] => []
  | true, c :: cs => skipBlanks (c != '\n') cs
  | false, c :: cs =>
    if Text.isBlank c then skipBlanks false cs
    else if c = '#' then skipBlanks true cs
    else c :: cs

/-- Take characters from the front as long as a condition holds, and blanks and comments
between and behind them. -/
def takeSpaced (spaced : Bool) (p : Char → Bool) :
    (inComment : Bool) → List Char → List Char × List Char
  | _, [] => ([], [])
  | true, c :: cs => takeSpaced spaced p (c != '\n') cs
  | false, c :: cs =>
    if spaced && Text.isBlank c then takeSpaced spaced p false cs
    else if spaced && c == '#' then takeSpaced spaced p true cs
    else if p c then
      let (taken, rest) := takeSpaced spaced p false cs
      (c :: taken, rest)
    else ([], c :: cs)

namespace Flags

/-- Drop what has no meaning before the next part of a pattern. -/
def skip (flags : Flags) (cs : List Char) : List Char :=
  if flags.spaced then skipBlanks false cs else cs

/-- The next character that has a meaning.  Here a number sign is a blank, and what
stands behind it is no comment. -/
def peek (flags : Flags) (cs : List Char) : Option Char :=
  if flags.spaced then
    match cs.dropWhile Text.isBlank with
    | '#' :: cs => (cs.dropWhile Text.isBlank).head?
    | cs => cs.head?
  else cs.head?

/-- Take characters from the front as long as a condition holds. -/
def take (flags : Flags) (p : Char → Bool) (cs : List Char) : List Char × List Char :=
  takeSpaced flags.spaced p false cs

/-- Close a set under case, where case does not matter. -/
def fold (flags : Flags) (s : CharSet) : CharSet :=
  if flags.anyCase then
    if flags.unicode then Text.anyCase s else Text.anyCaseAscii s
  else s

/-- A character and, where case does not matter, its variants. -/
def foldChar (flags : Flags) (c : Char) : CharSet :=
  if flags.anyCase && flags.unicode then Text.variantSet c
  else if flags.anyCase && c.isAlpha then CharSet.unionAll [.single c.toLower, .single c.toUpper]
  else .single c

/-- A set that stands for one character; among bytes it must not reach beyond ASCII, so
that no character is cut in two. -/
def checkSet (flags : Flags) (s : CharSet) : Except Fault CharSet :=
  if flags.unicode || s.isAscii then .ok s else .error .notAscii

/-- Turn one flag on or off. -/
def set? (flags : Flags) (letter : Char) (on : Bool) : Option Flags :=
  match letter with
  | 'i' => some { flags with anyCase := on }
  | 'm' => some { flags with multiLine := on }
  | 's' => some { flags with dotAll := on }
  | 'U' => some flags
  | 'u' => some { flags with unicode := on }
  | 'R' => some { flags with crlf := on }
  | 'x' => some { flags with spaced := on }
  | _ => none

end Flags

/-! ## Escapes -/

/-- The parts of a pattern that an escape can stand for. -/
inductive Primitive
  | char (c : Char)
  | set (s : CharSet)
  | look (l : Look)

/-- The value of a hexadecimal digit. -/
def hexDigit? (c : Char) : Option Nat :=
  if '0' ≤ c ∧ c ≤ '9' then some (c.toNat - '0'.toNat)
  else if 'a' ≤ c ∧ c ≤ 'f' then some (c.toNat - 'a'.toNat + 10)
  else if 'A' ≤ c ∧ c ≤ 'F' then some (c.toNat - 'A'.toNat + 10)
  else none

/-- The number that hexadecimal digits denote. -/
def hexValue? (cs : List Char) : Option Nat :=
  cs.foldlM (fun n c => (hexDigit? c).map (16 * n + ·)) 0

/-- The character with a code point; surrogates and numbers out of range have none. -/
def charOf? (code : Nat) : Option Char :=
  if code < 0xD800 ∨ (0xDFFF < code ∧ code ≤ 0x10FFFF) then some (Char.ofNat code) else none

/-- Take the given number of hexadecimal digits. -/
def takeHex (flags : Flags) : Nat → List Char → Except Fault (List Char × List Char)
  | 0, cs => .ok ([], cs)
  | _ + 1, [] => .error .unfinishedEscape
  | n + 1, c :: cs => do
    if (hexDigit? c).isNone then throw .badCodePoint
    let (digits, rest) ← takeHex flags n (flags.skip cs)
    return (c :: digits, rest)

/-- The text up to a closing brace and the text behind it. -/
def takeBraced (flags : Flags) (cs : List Char) : Except Fault (List Char × List Char) :=
  match flags.take (· != '\x7d') cs with
  | (body, _ :: rest) => .ok (body, rest)
  | (_, []) => .error .unfinishedEscape

/-- A code point in hexadecimal: `width` digits, or any number of them in braces. -/
def readHex (flags : Flags) (width : Nat) (cs : List Char) :
    Except Fault (Primitive × List Char) := do
  match flags.skip cs with
  | [] => throw .unfinishedEscape
  | '\x7b' :: cs =>
    let (digits, rest) ← takeBraced flags cs
    if digits.isEmpty then throw .badCodePoint
    match (hexValue? digits).bind charOf? with
    | some c => return (.char c, flags.skip rest)
    | none => throw .badCodePoint
  | cs =>
    let (digits, rest) ← takeHex flags width cs
    match (hexValue? digits).bind charOf? with
    | some c =>
      if !flags.unicode && width == 2 && 128 ≤ c.toNat then throw .notAscii
      return (.char c, rest)
    | none => throw .badCodePoint

/-- A Unicode property: one letter, or a query in braces. -/
def readProperty (flags : Flags) (negated : Bool) (cs : List Char) :
    Except Fault (Primitive × List Char) := do
  let (query, rest) ←
    match flags.skip cs with
    | [] => throw .unfinishedEscape
    | '\x7b' :: cs => takeBraced flags cs
    | '\\' :: _ => throw .unknownProperty
    | c :: cs => pure ([c], flags.skip cs)
  if !flags.unicode then throw .notAscii
  match Text.setOfQuery? query with
  | some (inverted, s) =>
    let s := flags.fold s
    return (.set (if negated != inverted then s.compl else s), rest)
  | none => throw .unknownProperty

/-- Characters that have a meaning of their own somewhere in a pattern. -/
def isMeta (c : Char) : Bool :=
  ['\\', '.', '+', '*', '?', '(', ')', '|', '[', ']', '\x7b', '\x7d', '^', '$', '#', '&', '-',
    '~'].contains c

/-- Characters that may follow a backslash without need: all of ASCII but
letters, digits and angle brackets. -/
def isEscapable (c : Char) : Bool :=
  isMeta c || (c.toNat < 128 && !c.isAlphanum && c != '<' && c != '>')

/-- The condition `boundary`, or one of the conditions that are written behind it
in braces. -/
def readWordEdge (flags : Flags) (cs : List Char) : Except Fault (Primitive × List Char) := do
  let edge (e : WordEdge) : Primitive := .look (.word e (!flags.unicode))
  let isNameChar (c : Char) := c.isAlpha || c == '-'
  match cs with
  | '\x7b' :: inner =>
    match flags.skip inner with
    | [] => throw .badWordEdge
    | c :: name =>
      if !isNameChar c then return (edge .boundary, cs)
      match flags.take isNameChar (c :: name) with
      | (name, '\x7d' :: rest) =>
        match String.ofList name with
        | "start" => return (edge .start, rest)
        | "end" => return (edge .stop, rest)
        | "start-half" => return (edge .startHalf, rest)
        | "end-half" => return (edge .stopHalf, rest)
        | _ => throw .badWordEdge
      | _ => throw .badWordEdge
  | _ => return (edge .boundary, cs)

/-- The sets of digits, blanks and word characters, by the letter behind the
backslash. -/
def letterSet? (flags : Flags) : Char → Option CharSet
  | 'd' => some (if flags.unicode then Text.Category.only .decimalNumber else .range '0' '9')
  | 's' => some (if flags.unicode then Text.Property.whiteSpace.set
      else CharSet.ranges [('\t', '\x0d'), (' ', ' ')])
  | 'w' => some (wordSet (!flags.unicode))
  | _ => none

/-- What stands behind a backslash. -/
def readEscape (flags : Flags) : List Char → Except Fault (Primitive × List Char)
  | [] => .error .unfinishedEscape
  | c :: cs =>
    if c.isDigit then .error .backReference
    else if let some s := letterSet? flags c then .ok (.set s, cs)
    else if let some s := if c.isUpper then letterSet? flags c.toLower else none then
      (flags.checkSet s.compl).map fun s => (.set s, cs)
    else if isEscapable c then .ok (.char c, cs)
    else
      match c with
      | 'x' => readHex flags 2 cs
      | 'u' => readHex flags 4 cs
      | 'U' => readHex flags 8 cs
      | 'p' => readProperty flags false cs
      | 'P' => readProperty flags true cs
      | 'a' => .ok (.char '\x07', cs)
      | 'f' => .ok (.char '\x0c', cs)
      | 't' => .ok (.char '\t', cs)
      | 'n' => .ok (.char '\n', cs)
      | 'r' => .ok (.char '\r', cs)
      | 'v' => .ok (.char '\x0b', cs)
      | 'A' => .ok (.look .textStart, cs)
      | 'z' => .ok (.look .textEnd, cs)
      | 'b' => readWordEdge flags cs
      | 'B' => .ok (.look (.word .inside (!flags.unicode)), cs)
      | '<' => .ok (.look (.word .start (!flags.unicode)), cs)
      | '>' => .ok (.look (.word .stop (!flags.unicode)), cs)
      | _ => .error .unknownEscape

end DataTree.Pattern
