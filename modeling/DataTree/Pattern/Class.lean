import DataTree.Pattern.Escape

/-!
# DataTree.Pattern.Class

Classes: sets of characters in brackets.

    class = "[" , [ "^" ] , { "-" } , [ "]" ] , operand , { op , operand } , "]"
    op    = "&&" | "--" | "~~"

An operand is a run of items, each a character, an interval, an escape that
stands for a set, a named class of ASCII such as `[:alpha:]`, or a nested class.
A hyphen is a character of its own at the start and before the closing bracket,
and so is a closing bracket in the first place.  Operations group to the left.

A class is a level of nesting, and so are a run of several items and an operation.
-/

namespace DataTree.Pattern

open Text (CharSet)

/-! ## Sets with the depth of what describes them -/

/-- The depth of several parts taken together. -/
def jointDepth (depths : List Nat) : Nat :=
  match depths with
  | [] => 0
  | [d] => d
  | d :: ds => ds.foldl max d + 1

/-- A set and the depth of nesting of its description. -/
structure ClassPart where
  set : CharSet
  depth : Nat

/-- The items of an operand that have been read so far. -/
structure Operand where
  set : CharSet := .empty
  depths : List Nat := []

namespace Operand

def push (o : Operand) (s : CharSet) (depth : Nat) : Operand :=
  ⟨o.set.union s, depth :: o.depths⟩

/-- The operand as a whole. -/
def part (o : Operand) : ClassPart := ⟨o.set, jointDepth o.depths⟩

end Operand

/-- The operations between the operands of a class. -/
inductive SetOp
  | inter | diff | symmDiff

/-- Combine two operands; case is settled before. -/
def SetOp.apply (flags : Flags) (op : SetOp) (a b : ClassPart) : ClassPart :=
  let s := match op with
    | inter => (flags.fold a.set).inter (flags.fold b.set)
    | diff => (flags.fold a.set).diff (flags.fold b.set)
    | symmDiff => (flags.fold a.set).symmDiff (flags.fold b.set)
  ⟨s, max a.depth b.depth + 1⟩

/-- Combine the last operand with what stands before it. -/
def combine (flags : Flags) (pending : Option (ClassPart × SetOp)) (o : Operand) : ClassPart :=
  match pending with
  | some (lhs, op) => op.apply flags lhs o.part
  | none => o.part

/-- A set as the pattern's flags want it: closed under case, then inverted where that is
asked for. -/
def finishSet (flags : Flags) (negated : Bool) (s : CharSet) : Except Fault CharSet :=
  let s := flags.fold s
  flags.checkSet (if negated then s.compl else s)

/-! ## Items -/

/-- A class of ASCII characters by its name. -/
def asciiNamed? : String → Option CharSet
  | "alnum" => some (CharSet.ranges [('0', '9'), ('A', 'Z'), ('a', 'z')])
  | "alpha" => some (CharSet.ranges [('A', 'Z'), ('a', 'z')])
  | "ascii" => some (.range '\x00' '\x7f')
  | "blank" => some (CharSet.ranges [('\t', '\t'), (' ', ' ')])
  | "cntrl" => some (CharSet.ranges [('\x00', '\x1f'), ('\x7f', '\x7f')])
  | "digit" => some (.range '0' '9')
  | "graph" => some (.range '!' '~')
  | "lower" => some (.range 'a' 'z')
  | "print" => some (.range ' ' '~')
  | "punct" =>
    some (CharSet.ranges [('!', '/'), (':', '@'), ('[', '\x60'), ('\x7b', '~')])
  | "space" => some (CharSet.ranges [('\t', '\x0d'), (' ', ' ')])
  | "upper" => some (.range 'A' 'Z')
  | "word" => some (CharSet.ranges [('0', '9'), ('A', 'Z'), ('_', '_'), ('a', 'z')])
  | "xdigit" => some (CharSet.ranges [('0', '9'), ('A', 'F'), ('a', 'f')])
  | _ => none

/-- A class of ASCII by name, behind an opening bracket, as its set and whether it is
negated; none if the text has not that form. -/
def readAsciiClass? : List Char → Option (CharSet × Bool × List Char)
  | ':' :: cs =>
    let (negated, cs) := match cs with
      | '^' :: cs => (true, cs)
      | cs => (false, cs)
    match cs.dropWhile (· != ':') with
    | ':' :: ']' :: rest =>
      (asciiNamed? (String.ofList (cs.takeWhile (· != ':')))).map (·, negated, rest)
    | _ => none
  | _ => none

/-- A single item of a class, before it is known whether an interval follows. -/
def readClassItem (flags : Flags) : List Char → Except Fault (Primitive × List Char)
  | [] => .error .unclosedClass
  | '\\' :: cs => readEscape flags cs
  | c :: cs => .ok (.char c, cs)

/-- A character as an item of a class. -/
def charItem (flags : Flags) (c : Char) : Except Fault CharSet :=
  if flags.unicode || c.toNat < 128 then .ok (.single c) else .error .notAscii

/-- An item that stands alone. -/
def Primitive.toSet (flags : Flags) : Primitive → Except Fault CharSet
  | char c => charItem flags c
  | set s => .ok s
  | look _ => .error .badClassItem

/-- An item or an interval. -/
def readClassRange (flags : Flags) (cs : List Char) : Except Fault (CharSet × List Char) := do
  let (first, rest) ← readClassItem flags cs
  match flags.skip rest with
  | [] => throw .unclosedClass
  | '-' :: behind =>
    if flags.peek behind = some ']' ∨ flags.peek behind = some '-' then
      return (← first.toSet flags, '-' :: behind)
    else
      let (last, rest) ← readClassItem flags (flags.skip behind)
      match first, last with
      | .char lo, .char hi =>
        if lo ≤ hi then
          let _ ← charItem flags hi
          return (.range lo hi, rest)
        else throw .badClassRange
      | _, _ => throw .badClassRange
  | rest => return (← first.toSet flags, rest)

/-! ## Classes -/

/-- The hyphens at the start of a class. -/
def readHyphens (flags : Flags) (o : Operand) (cs : List Char) : Operand × List Char :=
  let (hyphens, rest) := flags.take (· == '-') cs
  (hyphens.foldl (fun o c => o.push (.single c) 0) o, rest)

/-- The opening of a class behind its bracket: whether it is negated, and the hyphens, or
a closing bracket, that it starts with. -/
def readClassStart (flags : Flags) (cs : List Char) : Bool × Operand × List Char :=
  let (negated, cs) := match flags.skip cs with
    | '^' :: rest => (true, flags.skip rest)
    | rest => (false, rest)
  match cs with
  | ']' :: rest => (negated, Operand.push {} (.single ']') 0, flags.skip rest)
  | cs => (negated, readHyphens flags {} cs)

/-- The operands of a class up to the closing bracket: `pending` is what stands
before the last operation, `o` the operand read so far.  `fuel` bounds the number
of items and the depth of nesting; the length of the text is enough. -/
def readClassBody (flags : Flags) :
    (fuel : Nat) → (negated : Bool) → Option (ClassPart × SetOp) → Operand → List Char →
      Except Fault (ClassPart × List Char)
  | 0, _, _, _, _ => .error .unclosedClass
  | fuel + 1, negated, pending, o, cs =>
    match flags.skip cs with
    | [] => .error .unclosedClass
    | ']' :: rest =>
      let all := combine flags pending o
      (finishSet flags negated all.set).map fun s => (⟨s, all.depth + 1⟩, rest)
    | '&' :: '&' :: rest =>
      readClassBody flags fuel negated (some (combine flags pending o, .inter)) {} rest
    | '-' :: '-' :: rest =>
      readClassBody flags fuel negated (some (combine flags pending o, .diff)) {} rest
    | '~' :: '~' :: rest =>
      readClassBody flags fuel negated (some (combine flags pending o, .symmDiff)) {} rest
    | '[' :: rest =>
      match readAsciiClass? rest with
      | some (s, inverted, rest) => do
        let s ← finishSet flags inverted s
        readClassBody flags fuel negated pending (o.push s 0) rest
      | none => do
        let (inverted, start, rest) := readClassStart flags rest
        let (nested, rest) ← readClassBody flags fuel inverted none start rest
        readClassBody flags fuel negated pending (o.push nested.set nested.depth) rest
    | cs => do
      let (s, rest) ← readClassRange flags cs
      readClassBody flags fuel negated pending (o.push s 0) rest

/-- A class behind its opening bracket. -/
def readClass (flags : Flags) (cs : List Char) : Except Fault (ClassPart × List Char) :=
  let (negated, start, rest) := readClassStart flags cs
  readClassBody flags (cs.length + 1) negated none start rest

end DataTree.Pattern
