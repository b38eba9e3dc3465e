import DataTree.ElementId
import DataTree.Text.Quoted

/-!
# DataTree.Error

Why an operation fails.  `Error` has one constructor per cause, with what the
message needs; `Error.message` is the only place where the wording is decided.
-/

namespace DataTree

/-- The cause of a failed operation. -/
inductive Error where
  /-- A value broke a pattern, a range, an enumeration or a precision. -/
  | constraintViolation (value restriction : String)
  /-- The argument of a restriction makes no sense. -/
  | invalidRestriction (restriction reason : String)
  /-- A value has no form in the type asked for. -/
  | typeMismatch (value expected : String)
  /-- No allowed type of a leaf-list takes the value. -/
  | itemRejected (value : String) (allowed : List String)
  /-- No candidate of a union takes the value. -/
  | unionMismatch (value : String) (candidates : List String)
  /-- More fractional digits than a decimal can have. -/
  | invalidPrecision (digits : Nat)
  /-- The key is in the list already. -/
  | duplicateKey (list key : String)
  /-- The key is not in the list. -/
  | missingKey (list key : String)
  /-- A key does not have one part for each key leaf. -/
  | keyArity (list : String) (expected : List String) (got : String)
  /-- The content of an element has no such operation. -/
  | unsupported (op content : String)
  /-- A member of another case cannot be unset. -/
  | unmappedCase (choice case member : String)
  /-- A required instance is not among the candidates. -/
  | unresolved (value path : String) (candidates : List String)
  /-- A live reference does not lead to exactly one element. -/
  | invalidPointer (path : String) (found : Nat)
  /-- References lead around in a circle. -/
  | circularReference (id : ElementId)
  /-- The slot of the id is empty. -/
  | elementNotFound (id : ElementId)
  /-- A container has no child of that name. -/
  | childNotFound (parent name : String)
  /-- A sequence does not hold the value. -/
  | notPresent (owner value : String)
  /-- A position behind the end of a sequence. -/
  | indexOutOfRange (index length : Nat)
  /-- The text of the settings cannot be read. -/
  | invalidSettings (reason : String)
  deriving DecidableEq, Repr

namespace Error

open Text (quoteList)
open Numeral (natText)

/-- The wording of an error. -/
def message : Error → String
  | constraintViolation value restriction =>
    "'" ++ value ++ "' did not match restricted type (" ++ restriction ++ ")"
  | invalidRestriction restriction reason =>
    "invalid restriction " ++ restriction ++ ": " ++ reason
  | typeMismatch value expected => "'" ++ value ++ "' is not a valid " ++ expected
  | itemRejected value allowed =>
    "cannot add '" ++ value ++ "' to typed list (accepts only " ++ quoteList allowed ++ ")"
  | unionMismatch value candidates =>
    "did not find a valid type for '" ++ value ++ "' among " ++ quoteList candidates
  | invalidPrecision digits => "unsupported fraction-digits " ++ natText digits
  | duplicateKey list key => key ++ " is already defined as a list entry of " ++ list
  | missingKey list key => "key " ++ key ++ " was not in list " ++ list
  | keyArity list expected got =>
    "list " ++ list ++ " key must contain all key elements " ++ quoteList expected
      ++ ", got '" ++ got ++ "'"
  | unsupported op content => content ++ " object has no attribute " ++ op
  | unmappedCase choice case member =>
    "unmapped choice: " ++ choice ++ "/" ++ case ++ " member " ++ member ++ " has no unset hook"
  | unresolved value path candidates =>
    "no such key (" ++ value ++ ") existed in path (" ++ path ++ " -> " ++ quoteList candidates
      ++ ")"
  | invalidPointer path found =>
    "invalid pointer specified: " ++ path ++ " resolved to " ++ natText found ++ " elements"
  | circularReference id => "circular reference through element " ++ id.text
  | elementNotFound id => "element not found: " ++ id.text
  | childNotFound parent name => parent ++ " has no child named " ++ name
  | notPresent owner value => value ++ " is not in " ++ owner
  | indexOutOfRange index length =>
    "index " ++ natText index ++ " out of range for sequence of length " ++ natText length
  | invalidSettings reason => "invalid configuration: " ++ reason

end Error

end DataTree
