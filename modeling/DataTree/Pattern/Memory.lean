import DataTree.Pattern.Outline
import DataTree.Text.Utf8

/-!
# DataTree.Pattern.Memory

How much memory an expression takes as an automaton over bytes, and the limit on it.

Every state takes 32 bytes, every choice among states 4 bytes for each of them, and
every transition of a state with several of them 8 bytes:

    literal             a state per byte
    set                 a state per byte interval, shared where the rest is the same
    condition           a state
    capture             two states around what it keeps
    one of several      a choice, a final state, and the branches
    up to once          a choice, a final state, and the part
    any number          a choice, and the part, which leads back to it

A copy is made for every round of a repetition with bounds.  What ends in a choice is
*open*: to go on from it takes one more link.  The automaton is built twice, for reading
forward and for reading backward, and each has to fit.
-/

namespace DataTree.Pattern

open Text (CharSet)
open Text.Utf8 (BytePattern)

/-- The way in which an automaton reads a text. -/
inductive Direction
  | forward | backward
  deriving DecidableEq, Repr

/-- The memory of a state. -/
def stateBytes : Nat := 32

/-- The memory of a link from a choice. -/
def linkBytes : Nat := 4

/-- The memory of a transition among several. -/
def transitionBytes : Nat := 8

/-- The sum of some numbers. -/
def total (ns : List Nat) : Nat := ns.foldl (· + ·) 0

/-! ## Sets -/

/-- How many of the bounds at the start of two byte patterns are the same. -/
def sharedPrefix : BytePattern → BytePattern → Nat
  | p :: ps, q :: qs => if p = q then sharedPrefix ps qs + 1 else 0
  | _, _ => 0

/-- The number of different beginnings of byte patterns in ascending order. -/
def beginnings (before : BytePattern) : List BytePattern → Nat
  | [] => 0
  | p :: ps => p.length - sharedPrefix before p + beginnings p ps

/-- Byte patterns by their first bounds, in order. -/
def byFirst : List BytePattern → List ((Nat × Nat) × List BytePattern)
  | [] => []
  | [] :: ps => byFirst ps
  | (b :: p) :: ps =>
    match byFirst ps with
    | (c, rests) :: groups =>
      if b = c then (c, p :: rests) :: groups else (b, [p]) :: (c, rests) :: groups
    | [] => [(b, [p])]

/-- The transitions of a state: bounds of a byte, and the number of the state that
follows. -/
abbrev Transitions := List ((Nat × Nat) × Nat)

/-- Find a state among those that there are, or add it; the final state has number 0. -/
def internState (states : List Transitions) (t : Transitions) : Nat × List Transitions :=
  match states.findIdx? (· = t) with
  | some i => (i + 1, states)
  | none => (states.length + 1, states ++ [t])

/-- The state that reads byte patterns, and the states after it; states that read the same
are one.  `fuel` bounds the number of bytes. -/
def shareStates : (fuel : Nat) → List BytePattern → List Transitions → Nat × List Transitions
  | 0, _, states => (0, states)
  | fuel + 1, ps, states =>
    match byFirst ps with
    | [] => (0, states)
    | groups =>
      let (transitions, states) := groups.foldl
        (fun (done, states) (bounds, rests) =>
          let (next, states) := shareStates fuel rests states
          (done ++ [(bounds, next)], states))
        (([] : Transitions), states)
      internState states transitions

/-- The memory of a set. -/
def setBytes (d : Direction) (s : CharSet) : Nat :=
  if s.isAscii then 2 * stateBytes + transitionBytes * s.intervals.length
  else
    let patterns := Text.Utf8.patterns s
    match d with
    | .forward =>
      let states := (shareStates 4 patterns []).2
      stateBytes * (states.length + 1) + transitionBytes * total (states.map List.length)
    | .backward =>
      stateBytes * (beginnings [] patterns + 2) + linkBytes * patterns.length

/-! ## Alternatives of literals -/

/-- The bytes of a literal, in reading order. -/
def literalBytes (d : Direction) (cs : List Char) : List Nat :=
  let bytes := cs.flatMap fun c => Text.Utf8.bytes c.toNat
  match d with
  | .forward => bytes
  | .backward => bytes.reverse

/-- Words in stretches, cut at the empty ones. -/
def cutAtEmpty : List (List Nat) → List (List (List Nat))
  | [] => [[]]
  | [] :: words => [] :: cutAtEmpty words
  | word :: words =>
    match cutAtEmpty words with
    | first :: others => (word :: first) :: others
    | [] => [[word]]

/-- Words in stretches between the places where nothing more has to be read; of several
such places at the very start one counts. -/
def stretches : List (List Nat) → List (List (List Nat))
  | [] :: words => [] :: cutAtEmpty (words.dropWhile List.isEmpty)
  | words => cutAtEmpty words

/-- The different first bytes of words, each with what follows it. -/
def byLetter : List (List Nat) → List (Nat × List (List Nat))
  | [] => []
  | [] :: words => byLetter words
  | (b :: word) :: words =>
    let groups := byLetter words
    match groups.find? (·.1 == b) with
    | some (_, rests) => (b, word :: rests) :: groups.filter (·.1 != b)
    | none => (b, [word]) :: groups

/-- The memory of a tree of words.  A node has a choice among the stretches of words that
go on from it; `fuel` bounds the length of the words. -/
def treeBytes : (fuel : Nat) → List (List Nat) → Nat
  | 0, _ => 0
  | fuel + 1, words =>
    if words.all List.isEmpty then 0
    else
      let parts := (stretches words).map byLetter
      let ends := parts.length - 1
      let forks := parts.filter (!·.isEmpty)
      let fork (letters : List (Nat × List (List Nat))) : Nat :=
        stateBytes + (if letters.length = 1 then 0 else transitionBytes * letters.length)
          + total (letters.map fun (_, rests) => treeBytes fuel rests)
      stateBytes + linkBytes * (forks.length + ends) + total (forks.map fork)

/-- The literals of alternatives, if all are literals. -/
def Outline.literals? : Outline → Option (List (List Char))
  | literal cs => some [cs]
  | alt (literal cs) b => b.literals?.map (cs :: ·)
  | _ => none

/-! ## Outlines -/

/-- The memory of a part, and whether it ends in a choice. -/
structure Weight where
  bytes : Nat
  isOpen : Bool

/-- The memory of a part together with the link to what follows. -/
def Weight.linked (w : Weight) : Nat := w.bytes + if w.isOpen then linkBytes else 0

/-- The least number of bytes of a match; none if a part of the expression never
matches. -/
def Outline.leastLength : Outline → Option Nat
  | empty | look _ => some 0
  | literal cs => some (total (cs.map fun c => Text.Utf8.width c.toNat))
  | set s => s.changes.head?.map Text.Utf8.width
  | capture o => o.leastLength
  | rep o min _ => o.leastLength.map (· * min)
  | seq a b => a.leastLength.bind fun m => b.leastLength.map (m + ·)
  | alt a b => a.leastLength.bind fun m => b.leastLength.map (Nat.min m)

/-- The memory of several copies, one after the other. -/
def copies (w : Weight) : Nat → Weight
  | 0 => ⟨stateBytes, false⟩
  | n + 1 => ⟨n * w.linked + w.bytes, w.isOpen⟩

/-- The memory of a repetition of a part; `solid` says that the part always takes
characters. -/
def repeatedWeight (w : Weight) (solid : Bool) : (min : Nat) → (max : Option Nat) → Weight
  | 0, some 1 => ⟨2 * stateBytes + 2 * linkBytes + w.linked, false⟩
  | 0, none =>
    if solid then ⟨stateBytes + linkBytes + w.linked, true⟩
    else ⟨3 * stateBytes + 4 * linkBytes + w.linked, false⟩
  | min + 1, none => ⟨(copies w (min + 1)).linked + stateBytes + linkBytes, true⟩
  | min, some max =>
    if min = max then copies w min
    else
      ⟨(copies w min).linked + stateBytes
        + (max - min) * (stateBytes + 2 * linkBytes + w.linked), false⟩

/-- The memory of an outline.  With `branch` it is that of one branch or of several, each
with the link that leads to it. -/
def Outline.weight (d : Direction) : (branch : Bool) → Outline → Weight
  | branch, empty => onBranch branch ⟨stateBytes, false⟩
  | branch, literal cs => onBranch branch ⟨stateBytes * (literalBytes d cs).length, false⟩
  | branch, set s => onBranch branch ⟨setBytes d s, false⟩
  | branch, look _ => onBranch branch ⟨stateBytes, false⟩
  | branch, capture o =>
    let w := o.weight d false
    match d with
    | .forward => onBranch branch ⟨2 * stateBytes + w.linked, false⟩
    | .backward => onBranch branch w
  | branch, rep o min max =>
    let w := o.weight d false
    onBranch branch (repeatedWeight w (o.leastLength.any (0 < ·)) min max)
  | branch, seq a b =>
    let (v, w) := (a.weight d false, b.weight d false)
    match d with
    | .forward => onBranch branch ⟨v.linked + w.bytes, w.isOpen⟩
    | .backward => onBranch branch ⟨w.linked + v.bytes, v.isOpen⟩
  | branch, alt a b =>
    let sum := linkBytes + (a.weight d false).linked + (b.weight d true).bytes
    if branch then ⟨sum, false⟩
    else
      match (alt a b).literals? with
      | some literals =>
        let words := literals.map (literalBytes d)
        let longest := words.foldl (fun n word => max n word.length) 0
        ⟨stateBytes + treeBytes (longest + 1) words, false⟩
      | none => ⟨2 * stateBytes + sum, false⟩
where
  /-- A part by itself or as a branch. -/
  onBranch (branch : Bool) (w : Weight) : Weight :=
    if branch then ⟨linkBytes + w.linked, false⟩ else w

/-- Whether every match starts at the start of the text. -/
def Outline.startsAtStart : Outline → Bool
  | look l => l == .textStart
  | capture o => o.startsAtStart
  | rep o min _ => 0 < min && o.startsAtStart
  | seq a b => a.startsAtStart || (a.isNarrow && b.startsAtStart)
  | alt a b => a.startsAtStart && b.startsAtStart
  | _ => false

/-- Whether every match ends at the end of the text. -/
def Outline.endsAtEnd : Outline → Bool
  | look l => l == .textEnd
  | capture o => o.endsAtEnd
  | rep o min _ => 0 < min && o.endsAtEnd
  | seq a b => b.endsAtEnd || (b.isNarrow && a.endsAtEnd)
  | alt a b => a.endsAtEnd && b.endsAtEnd
  | _ => false

/-- The memory of an automaton: what skips text in front of a match, the outline, for
reading forward also the two states that keep the whole match, and the last state. -/
def Outline.memory (d : Direction) (o : Outline) : Nat :=
  let fixed := match d with
    | .forward => o.startsAtStart
    | .backward => o.endsAtEnd
  let skipping :=
    if fixed then stateBytes else 3 * stateBytes + 2 * linkBytes + transitionBytes
  let keeping := match d with
    | .forward => 2 * stateBytes
    | .backward => 0
  skipping + keeping + (o.weight d false).linked + stateBytes

/-- The greatest amount of memory: ten mebibytes. -/
def memoryLimit : Nat := 10 * 1024 * 1024

/-- Whether the automata of an expression fit into the memory that they may take. -/
def Regex.fits (r : Regex) : Bool :=
  let o := r.outline
  o.memory .forward ≤ memoryLimit && o.memory .backward ≤ memoryLimit

end DataTree.Pattern
