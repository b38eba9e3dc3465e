import DataTree.Text.Pieces

/-!
# DataTree.Path

Paths: segments separated by slashes.  A segment is a name, perhaps followed by a
predicate in brackets, as in `/interfaces/interface[name=ge-0/0/1]/mtu`.  Slashes
between brackets and slashes between single quotes within brackets belong to the
predicate.

* `segments` cuts a path; empty segments do not count, so leading, trailing and
  repeated slashes make no difference.
* `resolve` interprets a path from somewhere: `.` stays, `..` goes up, and a path
  that starts with a slash starts afresh.
* `answers` says when a registered path answers a query: with as many segments,
  the last one equal, and each earlier one equal or, if the query has no
  predicate there, equal without its predicate.
-/

namespace DataTree.Path

/-! ## Segments -/

/-- Where a character of a path stands. -/
structure Nesting where
  depth : Nat := 0
  quoted : Bool := false
  deriving DecidableEq, Repr

namespace Nesting

/-- Outside of all brackets and quotes, where a slash separates. -/
def isOutside (s : Nesting) : Bool := s.depth == 0 && !s.quoted

/-- The place behind a character. -/
def step (s : Nesting) (c : Char) : Nesting :=
  if c = '\'' then
    if 0 < s.depth then { s with quoted := !s.quoted } else s
  else if c = '[' then
    if s.quoted then s else { s with depth := s.depth + 1 }
  else if c = ']' then
    if s.quoted then s else { s with depth := s.depth - 1 }
  else s

/-- The place behind a text. -/
def after (s : Nesting) (cs : List Char) : Nesting := cs.foldl step s

end Nesting

/-- The stretches between separating slashes, empty ones included; `s` is where
the text starts. -/
def stretches (s : Nesting) : List Char → List (List Char)
  | [] => [[]]
  | c :: cs =>
    if c = '/' ∧ s.isOutside = true then [] :: stretches s cs
    else Text.consHead c (stretches (s.step c) cs)

/-- The segments of a path. -/
def segments (path : List Char) : List (List Char) :=
  (stretches {} path).filter fun segment => !segment.isEmpty

/-- The name in a segment: what stands before the first bracket. -/
def segmentName (segment : List Char) : List Char := segment.takeWhile (· != '[')

/-- No segment is empty. -/
theorem ne_nil_of_mem_segments {s path : List Char} (h : s ∈ segments path) : s ≠ [] := by
  rintro rfl
  simp [segments] at h

/-! ## Interpretation -/

/-- One step from a place: up, nowhere, or down into a segment. -/
def stepInto (place : List (List Char)) (segment : List Char) : List (List Char) :=
  if segment = ['.'] then place
  else if segment = ['.', '.'] then place.dropLast
  else place ++ [segment]

/-- The place that a path leads to, seen from the path of its caller. -/
def resolve (path : List Char) (caller : Option (List Char)) : List (List Char) :=
  let start :=
    match path, caller with
    | '/' :: _, _ => []
    | _, some caller => segments caller
    | _, none => []
  (segments path).foldl stepInto start

/-- Whether registered segments answer a query. -/
def answers : (query registered : List (List Char)) → Bool
  | [], [] => true
  | [q], [r] => q == r
  | q :: q' :: qs, r :: r' :: rs =>
    (if q.contains '[' then q == r else q == segmentName r) && answers (q' :: qs) (r' :: rs)
  | _, _ => false

/-- The path of a child: a slash between path and name, but never two. -/
def child (parent name : String) : String :=
  if parent.toList.getLast? = some '/' then parent ++ name else parent ++ "/" ++ name

/-! ## Examples -/

/-- Slashes in predicates do not separate. -/
example : segments "/l/i[name=ge-0/0/1]/mtu".toList
    = ["l".toList, "i[name=ge-0/0/1]".toList, "mtu".toList] := by decide +kernel

/-- A predicate may be left out before the last segment only. -/
example : answers ["a".toList, "b".toList] ["a[k=1]".toList, "b".toList] = true
    ∧ answers ["a".toList] ["a[k=1]".toList] = false := by decide +kernel

end DataTree.Path
