import DataTree.Pattern.Class
import DataTree.Pattern.Memory
import DataTree.Text.Recent

/-!
# DataTree.Pattern.Reader

Reading regular expressions.

    body   = branch , { "|" , branch }
    branch = { atom , { repetition } }
    atom   = character | "." | "^" | "$" | escape | class | group
    group  = "(" , [ "?:" | "?" , flags , ":" | "?<" , name , ">" ] , body , ")"

with `*`, `+`, `?` and counts in braces as repetitions, each of which a further
question mark may follow.  A group without a body, such as `(?i)`, sets flags for
the rest of the group that it stands in, across its branches.  Greed has no
influence on whether there is a match, so it is not kept.

No text is nested deeper than 250 levels.  A level is a group, a class, a
repetition, or a sequence of more than one atom or branch.  Nor may an expression
take more memory than `DataTree.Pattern.Memory` allows.
-/

namespace DataTree.Pattern

open Text (CharSet)

/-! ## What has been read of a group -/

/-- A part of a branch with its depth of nesting; `none` for a group that only
sets flags, which cannot be repeated. -/
structure Item where
  regex : Option Regex
  depth : Nat

/-- One expression after the other. -/
def seqAll : List Regex → Regex
  | [] => .empty
  | [r] => r
  | r :: rs => .seq r (seqAll rs)

/-- One of several expressions. -/
def altAll : List Regex → Regex
  | [] => .empty
  | [r] => r
  | r :: rs => .alt r (altAll rs)

/-- The finished branches of a group and the items of the current one, both with
the last one first. -/
structure Body where
  branches : List (Regex × Nat) := []
  items : List Item := []

namespace Body

def push (b : Body) (regex : Regex) (depth : Nat) : Body :=
  { b with items := ⟨some regex, depth⟩ :: b.items }

def pushFlags (b : Body) : Body := { b with items := ⟨none, 0⟩ :: b.items }

/-- The current branch as an expression. -/
def branch (b : Body) : Regex × Nat :=
  let items := b.items.reverse
  (seqAll (items.filterMap (·.regex)), jointDepth (items.map (·.depth)))

/-- End the current branch and start another one. -/
def nextBranch (b : Body) : Body := { branches := b.branch :: b.branches }

/-- The whole body as an expression. -/
def finish (b : Body) : Regex × Nat :=
  let branches := b.nextBranch.branches.reverse
  (altAll (branches.map Prod.fst), jointDepth (branches.map Prod.snd))

/-- Repeat the last item. -/
def repeatLast (b : Body) (min : Nat) (max : Option Nat) : Except Fault Body :=
  match b.items with
  | ⟨some r, depth⟩ :: items =>
    .ok { b with items := ⟨some (.rep r min max), depth + 1⟩ :: items }
  | _ => .error .nothingToRepeat

end Body

/-! ## Repetition counts -/

/-- A count: digits of a number with 32 bits, with blanks on either side. -/
def readCount (flags : Flags) (cs : List Char) : Except Fault (Nat × List Char) :=
  let (digits, rest) := flags.take Char.isDigit (cs.dropWhile Text.isBlank)
  match Numeral.readNat? digits with
  | some n => if n < UInt32.size then .ok (n, rest.dropWhile Text.isBlank) else .error .badCount
  | none => .error .badCount

/-- The bounds of a repetition, behind the opening brace. -/
def readCounts (flags : Flags) (cs : List Char) :
    Except Fault (Nat × Option Nat × List Char) := do
  let (min, rest) ← readCount flags (flags.skip cs)
  match rest with
  | '\x7d' :: rest => return (min, some min, flags.skip rest)
  | ',' :: rest =>
    match flags.skip rest with
    | '\x7d' :: rest => return (min, none, flags.skip rest)
    | rest =>
      let (max, rest) ← readCount flags rest
      match rest with
      | '\x7d' :: rest =>
        if min ≤ max then return (min, some max, flags.skip rest) else throw .badCount
      | _ => throw .badCount
  | _ => throw .badCount

/-- Drop the question mark that makes a repetition prefer fewer rounds. -/
def dropLazy : List Char → List Char
  | '?' :: cs => cs
  | cs => cs

/-! ## The opening of a group -/

/-- What the text behind an opening parenthesis starts. -/
inductive Opening
  /-- Flags for the rest of the surrounding group. -/
  | directive (flags : Flags) (rest : List Char)
  /-- A group with flags of its own; `names` are those of all groups so far. -/
  | group (captures : Bool) (flags : Flags) (names : List String) (rest : List Char)

/-- The letters of a group's flags, up to the colon or the closing parenthesis,
which stays.  `seen` holds the letters so far, the hyphen among them. -/
def readFlags (flags : Flags) (seen : List Char) :
    List Char → Except Fault (Flags × List Char × List Char)
  | [] => .error .badFlags
  | c :: cs =>
    if c = ':' ∨ c = ')' then
      if seen.head? = some '-' then .error .badFlags else .ok (flags, seen, c :: cs)
    else if seen.contains c then .error .badFlags
    else if c = '-' then readFlags flags (c :: seen) cs
    else
      match flags.set? c (!seen.contains '-') with
      | some flags => readFlags flags (c :: seen) cs
      | none => .error .badFlags

/-- Whether a character may stand in the name of a group. -/
def isNameChar (first : Bool) (c : Char) : Bool :=
  if first then c == '_' || Text.isAlphabetic c
  else c == '_' || c == '.' || c == '[' || c == ']' || Text.isAlphanumeric c

/-- The name of a group and the closing angle bracket. -/
def readName (names : List String) (cs : List Char) :
    Except Fault (List String × List Char) :=
  match cs.takeWhile (· != '>'), cs.dropWhile (· != '>') with
  | first :: others, '>' :: rest =>
    let name := String.ofList (first :: others)
    if !isNameChar true first || !others.all (isNameChar false) then .error .badGroupName
    else if names.contains name then .error .repeatedGroupName
    else .ok (name :: names, rest)
  | _, _ => .error .badGroupName

/-- The text behind an opening parenthesis. -/
def readOpening (flags : Flags) (names : List String) (cs : List Char) :
    Except Fault Opening := do
  match flags.skip cs with
  | '?' :: '=' :: _ | '?' :: '!' :: _ | '?' :: '<' :: '=' :: _ | '?' :: '<' :: '!' :: _ =>
    throw .lookAround
  | '?' :: 'P' :: '<' :: cs | '?' :: '<' :: cs =>
    let (names, rest) ← readName names cs
    return .group true flags names rest
  | ['?'] => throw .unclosedGroup
  | '?' :: cs =>
    let (inner, seen, rest) ← readFlags flags [] cs
    match rest with
    | ')' :: rest =>
      if seen.isEmpty then throw .nothingToRepeat else return .directive inner rest
    | _ => return .group false inner names (rest.drop 1)
  | cs => return .group true flags names cs

/-! ## Expressions -/

/-- A character that stands for itself. -/
def literal (flags : Flags) (c : Char) : Regex := .one (flags.foldChar c)

/-- The dot: any character but the end of a line. -/
def dot (flags : Flags) : Except Fault Regex :=
  if !flags.unicode then .error .notAscii
  else if flags.dotAll then .ok (.one .all)
  else if flags.crlf then .ok (.one (CharSet.compl (.union (.single '\r') (.single '\n'))))
  else .ok (.one (CharSet.compl (.single '\n')))

/-- An escape outside of a class. -/
def Primitive.toRegex (flags : Flags) : Primitive → Except Fault Regex
  | char c => .ok (literal flags c)
  | set s => (flags.checkSet s).map .one
  | look l => .ok (.look l)

/-- An expression that has been read, its depth, the names of all groups so far
and the text behind it. -/
structure Part where
  regex : Regex
  depth : Nat
  names : List String
  rest : List Char

/-- The body of a group, up to its closing parenthesis or the end of the text.
`fuel` bounds the number of items and the depth of nesting; the length of the
text is enough. -/
def readBody : (fuel : Nat) → Flags → List String → Body → List Char → Except Fault Part
  | 0, _, _, _, _ => .error .tooDeep
  | fuel + 1, flags, names, body, cs =>
    match flags.skip cs with
    | [] =>
      let (regex, depth) := body.finish
      .ok ⟨regex, depth, names, []⟩
    | ')' :: rest =>
      let (regex, depth) := body.finish
      .ok ⟨regex, depth, names, ')' :: rest⟩
    | '|' :: rest => readBody fuel flags names body.nextBranch rest
    | '(' :: rest => do
      match ← readOpening flags names rest with
      | .directive flags rest => readBody fuel flags names body.pushFlags rest
      | .group captures inner names rest =>
        let part ← readBody fuel inner names {} rest
        match part.rest with
        | ')' :: rest =>
          let group := .group captures part.regex
          readBody fuel flags part.names (body.push group (part.depth + 1)) rest
        | _ => throw .unclosedGroup
    | '[' :: rest => do
      let (part, rest) ← readClass flags rest
      readBody fuel flags names (body.push (.one part.set) part.depth) rest
    | '?' :: rest => do
      readBody fuel flags names (← body.repeatLast 0 (some 1)) (dropLazy rest)
    | '*' :: rest => do
      readBody fuel flags names (← body.repeatLast 0 none) (dropLazy rest)
    | '+' :: rest => do
      readBody fuel flags names (← body.repeatLast 1 none) (dropLazy rest)
    | '\x7b' :: rest => do
      let (min, max, rest) ← readCounts flags rest
      readBody fuel flags names (← body.repeatLast min max) (dropLazy rest)
    | '\\' :: rest => do
      let (p, rest) ← readEscape flags rest
      readBody fuel flags names (body.push (← p.toRegex flags) 0) rest
    | '.' :: rest => do
      readBody fuel flags names (body.push (← dot flags) 0) rest
    | '^' :: rest =>
      let l : Look := if flags.multiLine then .lineStart flags.crlf else .textStart
      readBody fuel flags names (body.push (.look l) 0) rest
    | '$' :: rest =>
      let l : Look := if flags.multiLine then .lineEnd flags.crlf else .textEnd
      readBody fuel flags names (body.push (.look l) 0) rest
    | c :: rest => readBody fuel flags names (body.push (literal flags c) 0) rest

/-- The greatest depth of nesting. -/
def depthLimit : Nat := 250

/-- The expression that a text denotes, or what is wrong with the text. -/
def read (cs : List Char) : Except Fault Regex := do
  let part ← readBody (cs.length + 1) {} [] {} cs
  if !part.rest.isEmpty then throw .unopenedGroup
  if depthLimit < part.depth then throw .tooDeep
  if !part.regex.fits then throw .tooLarge
  return part.regex

end DataTree.Pattern
