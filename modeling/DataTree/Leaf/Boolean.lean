import DataTree.Error
import DataTree.Value.Text

/-!
# DataTree.Leaf.Boolean

Boolean leaves accept more than the two values: the numbers 0 and 1, and the
words `true`, `True`, `1` and `false`, `False`, `0`.
-/

namespace DataTree.Boolean

/-- The truth value of a word. -/
def ofWord? : String → Option Bool
  | "true" | "True" | "1" => some true
  | "false" | "False" | "0" => some false
  | _ => none

/-- The truth value of a raw value; an absent one counts as false. -/
def ofValue? : Value → Option Bool
  | .empty => some false
  | .bool b => some b
  | .int n => if n = 0 then some false else if n = 1 then some true else none
  | .uint n => if n = 0 then some false else if n = 1 then some true else none
  | .text s => ofWord? s
  | _ => none

/-- Read a truth value. -/
def read (raw : Value) : Except Error Bool :=
  match ofValue? raw with
  | some b => .ok b
  | none => .error (.typeMismatch raw.toText "boolean")

end DataTree.Boolean
