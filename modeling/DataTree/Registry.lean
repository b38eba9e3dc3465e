import DataTree.Assoc
import DataTree.ElementId
import DataTree.Path
import DataTree.Value.Text

/-!
# DataTree.Registry

The registry: which targets are registered at which path.  A path may hold
several targets, the same one several times; they keep the order of their
registration, and paths keep the order in which they came to hold something.
A path that holds nothing is not kept.

A registry drops single registrations, or, in its simplest form, everything at a
path at once; `Removal` says which.
-/

namespace DataTree

/-- What a path can lead to. -/
inductive Target where
  | element (id : ElementId)
  /-- An item of a leaf-list. -/
  | member (owner : ElementId) (value : Value)

namespace Target

/-- Equality of targets; the values of members are compared as values. -/
def same : Target → Target → Bool
  | element a, element b => a == b
  | member a v, member b w => a == b && v.same w
  | _, _ => false

/-- A target in logs. -/
def outline : Target → String
  | element id => "Element(" ++ id.outline ++ ")"
  | member owner value =>
    "Member \x7b owner: " ++ owner.outline ++ ", value: " ++ value.outline ++ " \x7d"

end Target

/-- What dropping one registration at a path does. -/
inductive Removal
  /-- Drops the first equal one. -/
  | single
  /-- Drops all registrations at the path. -/
  | wholePath
  deriving DecidableEq, Repr

/-- Targets by path, in the order of registration. -/
structure Registry where
  removal : Removal := .single
  entries : List (String × List Target) := []

namespace Registry

/-- The targets registered at exactly this path. -/
def targetsAt (r : Registry) (path : String) : List Target := (Assoc.get? path r.entries).getD []

/-- Whether anything is registered at exactly this path. -/
def contains (r : Registry) (path : String) : Bool := Assoc.contains path r.entries

/-- The paths that hold something. -/
def paths (r : Registry) : List String := Assoc.keys r.entries

/-- The number of paths that hold something. -/
def size (r : Registry) : Nat := r.entries.length

def isEmpty (r : Registry) : Bool := r.entries.isEmpty

/-- Add a target behind those that a path holds. -/
def register (r : Registry) (path : String) (target : Target) : Registry :=
  { r with entries := Assoc.modify path [] (· ++ [target]) r.entries }

/-- Drop everything at a path. -/
def unregister (r : Registry) (path : String) : Registry :=
  { r with entries := Assoc.erase path r.entries }

/-- Drop the first target of a path that equals the given one. -/
def unregisterFirst (r : Registry) (path : String) (target : Target) : Registry :=
  match Assoc.get? path r.entries with
  | none => r
  | some targets =>
    match targets.eraseP (·.same target) with
    | [] => r.unregister path
    | rest => { r with entries := Assoc.insert path rest r.entries }

/-- Drop one registration, in the way of this registry. -/
def unregisterTarget (r : Registry) (path : String) (target : Target) : Registry :=
  match r.removal with
  | .single => r.unregisterFirst path target
  | .wholePath => r.unregister path

/-- The targets at all paths that answer a query, path by path; a relative query
is seen from the path of its caller. -/
def lookup (r : Registry) (path : String) (caller : Option String) : List Target :=
  let query := Path.resolve path.toList (caller.map String.toList)
  r.entries.flatMap fun (registered, targets) =>
    if Path.answers query (Path.segments registered.toList) then targets else []

/-- A path holds what it held before and the new target behind it. -/
theorem targetsAt_register_self (r : Registry) (path : String) (t : Target) :
    (r.register path t).targetsAt path = r.targetsAt path ++ [t] := by
  simp [register, targetsAt, Assoc.modify]

/-- Registering at one path does not concern another. -/
theorem targetsAt_register_of_ne {path other : String} (h : other ≠ path) (r : Registry)
    (t : Target) :
    (r.register path t).targetsAt other = r.targetsAt other := by
  simp [register, targetsAt, Assoc.modify, Assoc.get?_insert_of_ne h]

/-- Registering adds one target at one path. -/
theorem mem_targetsAt_register_iff {r : Registry} {path other : String} {x y : Target} :
    y ∈ (r.register path x).targetsAt other ↔ y ∈ r.targetsAt other ∨ (other = path ∧ y = x) := by
  by_cases hp : other = path
  · subst hp
    simp [targetsAt_register_self]
  · simp [targetsAt_register_of_ne hp, hp]

/-- Nothing is left at a path that was dropped. -/
theorem targetsAt_unregister_self (r : Registry) (path : String) :
    (r.unregister path).targetsAt path = [] := by
  simp [unregister, targetsAt, Assoc.get?_erase_self]

theorem targetsAt_unregister_of_ne {path other : String} (h : other ≠ path) (r : Registry) :
    (r.unregister path).targetsAt other = r.targetsAt other := by
  simp [unregister, targetsAt, Assoc.get?_erase_of_ne h]

end Registry

end DataTree
