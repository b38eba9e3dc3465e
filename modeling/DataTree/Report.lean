import DataTree.Error

/-!
# DataTree.Report

Errors as they are reported to the outside: a kind with a stable code, a
message, and what is known of the operation, the path and the candidates.

`Report.ofError` files every cause under its kind.  Causes that differ only in
detail share a kind: a rejected item and a rejected union value are type
mismatches, a key with too few parts is a missing key.
-/

namespace DataTree

namespace Report

/-- The kinds of reported errors. -/
inductive Kind
  | constraintViolation | typeMismatch | invalidRestriction
  | duplicateKey | missingKey
  | capabilityUnsupported | unmappedChoiceCase
  | resolutionFailure
  | notFound | invalidInput
  | internal
  deriving DecidableEq, Repr

/-- The name of a kind. -/
def Kind.name : Kind → String
  | constraintViolation => "ConstraintViolation"
  | typeMismatch => "TypeMismatch"
  | invalidRestriction => "InvalidRestriction"
  | duplicateKey => "DuplicateKey"
  | missingKey => "MissingKey"
  | capabilityUnsupported => "CapabilityUnsupported"
  | unmappedChoiceCase => "UnmappedChoiceCase"
  | resolutionFailure => "ResolutionFailure"
  | notFound => "NotFound"
  | invalidInput => "InvalidInput"
  | internal => "Internal"

/-- The stable code of a kind. -/
def Kind.code : Kind → String
  | constraintViolation => "ERR_CONSTRAINT_VIOLATION"
  | typeMismatch => "ERR_TYPE_MISMATCH"
  | invalidRestriction => "ERR_INVALID_RESTRICTION"
  | duplicateKey => "ERR_DUPLICATE_KEY"
  | missingKey => "ERR_MISSING_KEY"
  | capabilityUnsupported => "ERR_CAPABILITY_UNSUPPORTED"
  | unmappedChoiceCase => "ERR_UNMAPPED_CHOICE_CASE"
  | resolutionFailure => "ERR_RESOLUTION_FAILURE"
  | notFound => "ERR_NOT_FOUND"
  | invalidInput => "ERR_INVALID_INPUT"
  | internal => "ERR_INTERNAL"

end Report

/-- A reported error. -/
structure Report where
  kind : Report.Kind
  op : Option String := none
  path : Option String := none
  message : String := ""
  candidates : Option (List String) := none
  /-- The error behind this one. -/
  source : Option Report := none

namespace Report

/-- The code of a report is that of its kind. -/
def code (r : Report) : String := r.kind.code

/-- One line: code, operation, message and path, as far as they are known. -/
def text (r : Report) : String :=
  "[" ++ r.code ++ "]"
    ++ (match r.op with | some op => " in operation '" ++ op ++ "'" | none => "")
    ++ (if r.message.isEmpty then "" else ": " ++ r.message)
    ++ (match r.path with | some path => " (path: " ++ path ++ ")" | none => "")

/-- How a cause is reported. -/
def ofError (e : Error) : Report :=
  let message := e.message
  match e with
  | .constraintViolation _ _ => { kind := .constraintViolation, message }
  | .invalidRestriction _ _ | .invalidPrecision _ => { kind := .invalidRestriction, message }
  | .typeMismatch _ _ => { kind := .typeMismatch, message }
  | .itemRejected _ allowed =>
    { kind := .typeMismatch, op := "typed_list_check", message, candidates := allowed }
  | .unionMismatch _ candidates =>
    { kind := .typeMismatch, op := "union_construct", message, candidates := candidates }
  | .duplicateKey list _ => { kind := .duplicateKey, op := "list_add", path := list, message }
  | .missingKey list _ => { kind := .missingKey, path := list, message }
  | .keyArity list _ _ => { kind := .missingKey, op := "list_add", path := list, message }
  | .unsupported op _ => { kind := .capabilityUnsupported, op := op, message }
  | .unmappedCase _ _ _ => { kind := .unmappedChoiceCase, op := "set", message }
  | .unresolved _ path candidates =>
    { kind := .resolutionFailure, op := "resolve_reference", path := path, message,
      candidates := candidates }
  | .invalidPointer path _ =>
    { kind := .resolutionFailure, op := "read_pointer", path := path, message }
  | .circularReference _ => { kind := .internal, message }
  | .elementNotFound _ | .childNotFound _ _ | .notPresent _ _ => { kind := .notFound, message }
  | .indexOutOfRange _ _ | .invalidSettings _ => { kind := .invalidInput, message }

end Report

end DataTree
