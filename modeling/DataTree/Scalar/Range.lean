import DataTree.Error
import DataTree.Scalar.Basic

/-!
# DataTree.Scalar.Range

Ranges: a value lies in a range when it lies in one of its intervals, ends
included.

    range    = interval , { "|" , interval }
    interval = bound | bound , ".." , bound

Blanks around bounds do not matter.  Only numeric types have ranges, the lower
bound of an interval is not above the upper one, and a single bound is an
interval of its own.
-/

namespace DataTree

/-- Intervals, with the text that they were read from. -/
structure Range (α : Type) where
  source : String
  parts : List (α × α)

namespace Range

variable {α : Type} [Scalar α]

/-- The two bounds that a part of a range expression gives. -/
def bounds (part : List Char) : List Char × List Char :=
  let part := Text.trim part
  match Text.cutAt? ['.', '.'] part with
  | some (lo, hi) => (Text.trim lo, Text.trim hi)
  | none => (part, part)

/-- The reasons why a part is no interval. -/
inductive Fault (α : Type)
  | badLower (text : String)
  | badUpper (text : String)
  | inverted (lo hi : α)

/-- The reason in words. -/
def Fault.message : Fault α → String
  | badLower text => "bad lower bound '" ++ text ++ "'"
  | badUpper text => "bad upper bound '" ++ text ++ "'"
  | inverted lo hi => Scalar.toText lo ++ " is greater than " ++ Scalar.toText hi

/-- Read one interval. -/
def readPart (part : List Char) : Except (Fault α) (α × α) :=
  let (lo, hi) := bounds part
  match Scalar.read? (α := α) lo with
  | none => .error (.badLower (String.ofList lo))
  | some low =>
    match Scalar.read? (α := α) hi with
    | none => .error (.badUpper (String.ofList hi))
    | some high => if Scalar.le low high then .ok (low, high) else .error (.inverted low high)

/-- Read intervals in order; the first fault is reported. -/
def readParts : List (List Char) → Except (Fault α) (List (α × α))
  | [] => .ok []
  | part :: parts => do
    let interval ← readPart part
    let intervals ← readParts parts
    return interval :: intervals

/-- The range that an expression describes. -/
def read (expr : String) : Except Error (Range α) :=
  if Scalar.isNumeric α then
    match readParts (Text.pieces (· == '|') expr.toList) with
    | .ok parts => .ok ⟨expr, parts⟩
    | .error fault => .error (.invalidRestriction ("range " ++ expr) fault.message)
  else .error (.typeMismatch expr "numeric base type for a range argument")

/-- The interval between two values. -/
def between (low high : α) : Range α :=
  ⟨Scalar.toText low ++ ".." ++ Scalar.toText high, [(low, high)]⟩

/-- Whether a value lies in one of the intervals. -/
def contains (r : Range α) (v : α) : Bool :=
  r.parts.any fun (low, high) => Scalar.le low v && Scalar.le v high

theorem contains_iff (r : Range α) (v : α) :
    r.contains v = true ↔
      ∃ p ∈ r.parts, Scalar.le p.1 v = true ∧ Scalar.le v p.2 = true := by
  simp [contains]

end Range

end DataTree
