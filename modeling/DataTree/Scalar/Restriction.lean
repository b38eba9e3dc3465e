import DataTree.Pattern.Anchored
import DataTree.Scalar.Enumeration
import DataTree.Scalar.Range

/-!
# DataTree.Scalar.Restriction

Restricted base types.  A `ScalarType` is a base type with restrictions, all of
which every value has to satisfy; a `Restricted` value is a scalar together with
the type that accepted it.

Patterns and enumerations judge the text of a value, ranges its order.
-/

namespace DataTree

/-- A condition on scalars. -/
inductive Restriction (α : Type) where
  | pattern (patterns : Pattern.PatternSet)
  | range (range : Range α)
  | enumeration (names : Enumeration)

namespace Restriction

variable {α : Type}

/-- Patterns that a value has to match, all of them as a whole. -/
def ofPatterns (sources : List String) : Except Error (Restriction α) :=
  match Pattern.PatternSet.read sources with
  | .ok patterns => .ok (.pattern patterns)
  | .error (source, fault) => .error (.invalidRestriction ("pattern " ++ source) fault.message)

/-- The range that an expression describes. -/
def ofRange [Scalar α] (expr : String) : Except Error (Restriction α) :=
  (Range.read expr).map range

/-- The names that a value may have. -/
def ofEntries (entries : List (String × Option Int)) : Restriction α :=
  enumeration (Enumeration.ofEntries entries)

/-- Whether a value satisfies the restriction. -/
def admits [Scalar α] (v : α) : Restriction α → Bool
  | pattern patterns => patterns.admits (Scalar.toText v)
  | range r => r.contains v
  | enumeration names => names.contains (Scalar.toText v)

def isEnumeration : Restriction α → Bool
  | enumeration _ => true
  | _ => false

/-- A restriction in messages. -/
def text : Restriction α → String
  | pattern patterns => "pattern " ++ Text.quoteList patterns.sources
  | range r => "range " ++ r.source
  | enumeration names => "enumeration " ++ Text.quoteList names.names

end Restriction

/-- A base type with restrictions, in the order in which they were added. -/
structure ScalarType (α : Type) where
  restrictions : List (Restriction α) := []

/-- A scalar and the type that accepted it. -/
structure Restricted (α : Type) where
  value : α
  type : ScalarType α

namespace ScalarType

variable {α : Type}

/-- Add a restriction. -/
def restrict (t : ScalarType α) (r : Restriction α) : ScalarType α :=
  ⟨t.restrictions ++ [r]⟩

/-- Whether one of the restrictions is an enumeration. -/
def isEnumeration (t : ScalarType α) : Bool := t.restrictions.any Restriction.isEnumeration

variable [Scalar α]

/-- Whether a value satisfies all restrictions. -/
def admits (t : ScalarType α) (v : α) : Bool := t.restrictions.all (·.admits v)

/-- The form of a raw value in the type: it has to have one in the base type, and
the first restriction that does not hold is reported. -/
def check (t : ScalarType α) (raw : Value) : Except Error α :=
  match Scalar.ofValue? raw with
  | none => .error (.typeMismatch raw.toText (Scalar.typeName α))
  | some v =>
    match t.restrictions.find? fun r => !r.admits v with
    | some r => .error (.constraintViolation (Scalar.toText v) r.text)
    | none => .ok v

/-- A restricted value from a raw one. -/
def construct (t : ScalarType α) (raw : Value) : Except Error (Restricted α) :=
  (t.check raw).map fun v => ⟨v, t⟩

/-- A type in messages: the base type and its restrictions. -/
def text (t : ScalarType α) : String :=
  t.restrictions.foldl (fun s r => s ++ " " ++ r.text) (Scalar.typeName α)

/-- A checked value satisfies every restriction. -/
theorem admits_of_check {t : ScalarType α} {raw : Value} {v : α} (h : t.check raw = .ok v) :
    t.admits v = true := by
  unfold check at h
  split at h
  · cases h
  · split at h
    · cases h
    · next hf =>
      obtain rfl := Except.ok.inj h
      simpa [admits, List.find?_eq_none] using hf

/-- A value is accepted exactly if it has a form that satisfies every restriction. -/
theorem check_eq_ok_iff {t : ScalarType α} {raw : Value} {v : α} :
    t.check raw = .ok v ↔ Scalar.ofValue? raw = some v ∧ t.admits v = true := by
  constructor
  · intro h
    refine ⟨?_, admits_of_check h⟩
    unfold check at h
    split at h
    · cases h
    · next w hw =>
      split at h
      · cases h
      · rw [hw, Except.ok.inj h]
  · rintro ⟨hv, ha⟩
    have hf : t.restrictions.find? (fun r => !r.admits v) = none := by
      simpa [admits, List.find?_eq_none] using ha
    simp [check, hv, hf]

end ScalarType

namespace Restricted

variable {α : Type}

/-- The number that an enumeration among the restrictions gives to a value. -/
def number? [Scalar α] (r : Restricted α) : Option Int :=
  r.type.restrictions.findSome? fun
    | .enumeration names => names.number? (Scalar.toText r.value)
    | _ => none

/-- Replace the value by one that the same type accepts. -/
def set [Scalar α] (r : Restricted α) (raw : Value) : Except Error (Restricted α) :=
  r.type.construct raw

/-- Restricted values are equal when their scalars are. -/
def same [Scalar α] (a b : Restricted α) : Bool := Scalar.same a.value b.value

end Restricted

end DataTree
