import DataTree.Text.Pieces
import DataTree.Value.Basic

/-!
# DataTree.Leaf.Reference

References: leaves whose value is defined by another node of the tree.  A
`ReferenceType` only says where that node is looked for; what a path leads to is
a question for the tree.
-/

namespace DataTree

/-- A reference to a path, absolute or relative to the leaf that refers. -/
structure ReferenceType where
  path : String
  /-- Whether the value has to name an existing target. -/
  requiresInstance : Bool := false
  deriving DecidableEq, Repr

namespace ReferenceType

/-- The name of the leaf referred to: what follows the last slash, without a
predicate. -/
def leafName (r : ReferenceType) : String :=
  let last := (Text.pieces (· == '/') r.path.toList).getLastD []
  String.ofList (last.takeWhile (· != '['))

/-- A reference type in messages. -/
def text (r : ReferenceType) : String := "leafref " ++ r.path

end ReferenceType

/-- What a reference leaf holds. -/
inductive ReferenceValue where
  /-- An alias of the one leaf at the path; every read looks for it anew. -/
  | pointer (path : String)
  /-- A value that was checked against the targets when it was assigned. -/
  | checked (v : Option Value)
  /-- A value that is kept as it came. -/
  | verbatim (v : Option Value)

namespace ReferenceValue

/-- The value that is kept, where one is. -/
def stored? : ReferenceValue → Option Value
  | pointer _ => none
  | checked v | verbatim v => v

def isPointer : ReferenceValue → Bool
  | pointer _ => true
  | _ => false

/-- Equality of stored values. -/
def sameStored : Option Value → Option Value → Bool
  | none, none => true
  | some a, some b => a.same b
  | _, _ => false

def same : ReferenceValue → ReferenceValue → Bool
  | pointer a, pointer b => a == b
  | checked a, checked b => sameStored a b
  | verbatim a, verbatim b => sameStored a b
  | _, _ => false

end ReferenceValue

end DataTree
