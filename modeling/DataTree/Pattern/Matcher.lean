import DataTree.Pattern.Regex

/-!
# DataTree.Pattern.Matcher

Deciding whether an expression occurs in a text.

A set of positions is a number: position `i` belongs to it when bit `i` is set.
`Regex.plan` looks at the characters of the text once, for every part of the
expression.  `Regex.run` takes the positions at which a match may start to those at which it
may end, all at once, so that no choice is ever tried twice and the work is
bounded by the lengths of expression and text.  A repetition goes on until a
further round changes nothing; since no round loses a position that it may keep,
that happens after as many rounds as there are positions.
-/

namespace DataTree.Pattern

open Text (CharSet)

/-- A bit for a condition. -/
def bit (b : Bool) : Nat := if b then 1 else 0

/-- The positions before a character of the set. -/
def places (s : CharSet) : List Char → Nat
  | [] => 0
  | c :: cs => bit (s.contains c) ||| places s cs <<< 1

/-- The positions at which a condition holds; `before` is the character in front
of the text. -/
def spots (l : Look) (before : Option Char) : List Char → Nat
  | [] => bit (l.holds before none)
  | c :: cs => bit (l.holds before (some c)) ||| spots l (some c) cs <<< 1

/-- Exactly `n` rounds of `f`; a round without effect is the last one needed. -/
def rounds (f : Nat → Nat) : (n : Nat) → Nat → Nat
  | 0, s => s
  | n + 1, s =>
    let t := f s
    if t = s then s else rounds f n t

/-- Up to `n` rounds of `f`; a round that adds nothing is the last one needed. -/
def upTo (f : Nat → Nat) : (n : Nat) → Nat → Nat
  | 0, s => s
  | n + 1, s =>
    let t := s ||| f s
    if t = s then s else upTo f n t

/-- An expression prepared for one text: sets of characters and conditions have become
sets of positions. -/
inductive Plan where
  | empty
  /-- One character, at one of the positions. -/
  | step (at_ : Nat)
  /-- No character, at one of the positions. -/
  | stay (at_ : Nat)
  | seq (a b : Plan)
  | alt (a b : Plan)
  | rep (p : Plan) (min : Nat) (max : Option Nat)

/-- The plan of an expression for a text. -/
def Regex.plan (text : List Char) : Regex → Plan
  | .empty => .empty
  | .one set => .step (places set text)
  | .look l => .stay (spots l none text)
  | .seq a b => .seq (a.plan text) (b.plan text)
  | .alt a b => .alt (a.plan text) (b.plan text)
  | .rep r min max => .rep (r.plan text) min max
  | .group _ r => r.plan text

/-- The positions at which a match that starts at one of the positions of `s` may
end; `length` is the length of the text. -/
def Plan.run (length : Nat) : Plan → Nat → Nat
  | .empty, s => s
  | .step at_, s => (s &&& at_) <<< 1
  | .stay at_, s => s &&& at_
  | .seq a b, s => b.run length (a.run length s)
  | .alt a b, s => a.run length s ||| b.run length s
  | .rep p min (some max), s =>
    if max < min then 0 else upTo (p.run length) (max - min) (rounds (p.run length) min s)
  | .rep p min none, s => upTo (p.run length) (length + 1) (rounds (p.run length) min s)

/-- The positions at which a match of the expression may end. -/
def Regex.run (text : List Char) (r : Regex) (s : Nat) : Nat := (r.plan text).run text.length s

/-- Whether the expression matches some stretch of the text. -/
def Regex.occursIn (r : Regex) (text : List Char) : Bool :=
  r.run text ((1 <<< (text.length + 1)) - 1) != 0

end DataTree.Pattern
