import DataTree.Leaf.Boolean
import DataTree.Leaf.Precision
import DataTree.Leaf.Reference
import DataTree.Scalar.Restriction

/-!
# DataTree.Leaf.Type

The types of leaves and the values that they accept.

A union tries its candidates in the order of declaration, and the first one that
accepts a value decides its form.  An absent value leaves a leaf of any type
unset.  References are kept as they come here; a tree that can look for their
targets does more.
-/

namespace DataTree

/-- The type of a leaf. -/
inductive LeafType where
  | text (type : ScalarType String)
  | int (type : ScalarType Int64)
  | uint (type : ScalarType UInt64)
  | decimal (precision : Precision) (range : ScalarType Decimal)
  | bool
  | union (candidates : List LeafType)
  | reference (type : ReferenceType)

/-- A value that a leaf type has accepted. -/
inductive LeafValue where
  | text (v : Restricted String)
  | int (v : Restricted Int64)
  | uint (v : Restricted UInt64)
  | decimal (v : FixedDecimal)
  | bool (b : Bool)
  | reference (r : ReferenceValue)

namespace LeafValue

/-- The raw form; a pointer has none of its own. -/
def toValue : LeafValue → Value
  | text v => .text v.value
  | int v => .int v.value
  | uint v => .uint v.value
  | decimal v => .decimal v.value
  | bool b => .bool b
  | reference r => r.stored?.getD .empty

/-- The number that an enumeration gives to a string. -/
def number? : LeafValue → Option Int
  | text v => v.number?
  | _ => none

/-- Equality of leaf values: of the same kind and equal in content, whatever the
restrictions are. -/
def same : LeafValue → LeafValue → Bool
  | text a, text b => a.same b
  | int a, int b => a.same b
  | uint a, uint b => a.same b
  | decimal a, decimal b => a.same b
  | bool a, bool b => a == b
  | reference a, reference b => a.same b
  | _, _ => false

end LeafValue

namespace LeafType

/-! ## The built-in types -/

/-- A string without restrictions. -/
def string : LeafType := text {}

/-- A string out of given names. -/
def enumeration (entries : List (String × Option Int)) : LeafType :=
  text { restrictions := [.ofEntries entries] }

/-- A signed integer of the given bounds. -/
def signed (low high : Int64) : LeafType :=
  int { restrictions := [.range (.between low high)] }

/-- An unsigned integer up to the given bound. -/
def unsigned (high : UInt64) : LeafType :=
  uint { restrictions := [.range (.between 0 high)] }

def int8 : LeafType := signed (-128) 127
def int16 : LeafType := signed (-32768) 32767
def int32 : LeafType := signed (-2147483648) 2147483647
def int64 : LeafType := signed (-9223372036854775808) 9223372036854775807
def uint8 : LeafType := unsigned 255
def uint16 : LeafType := unsigned 65535
def uint32 : LeafType := unsigned 4294967295
def uint64 : LeafType := unsigned 18446744073709551615

/-- A decimal with so many fractional digits. -/
def fixed (digits : Nat) : Except Error LeafType :=
  (Precision.ofDigits digits).map fun p => decimal p {}

/-! ## Types in messages -/

mutual

/-- A type in messages. -/
def description : LeafType → String
  | text t => t.text
  | int t => t.text
  | uint t => t.text
  | decimal p range =>
    range.restrictions.foldl (fun s r => s ++ " " ++ r.text)
      ("decimal64(" ++ Numeral.natText p.digits ++ ")")
  | bool => "boolean"
  | union candidates => "union(" ++ " | ".intercalate (descriptions candidates) ++ ")"
  | reference r => r.text

/-- The types of a list in messages. -/
def descriptions : List LeafType → List String
  | [] => []
  | t :: ts => description t :: descriptions ts

end

mutual

/-- Whether a reference is among the candidates, at any depth. -/
def involvesReference : LeafType → Bool
  | reference _ => true
  | union candidates => anyInvolvesReference candidates
  | _ => false

def anyInvolvesReference : List LeafType → Bool
  | [] => false
  | t :: ts => involvesReference t || anyInvolvesReference ts

end

/-! ## Construction -/

/-- No candidate of a union takes the value. -/
def noCandidate (raw : Value) (candidates : List LeafType) : Error :=
  .unionMismatch raw.toText (descriptions candidates)

/-- A value of a type that has no candidates of its own. -/
def constructPlain (raw : Value) : LeafType → Except Error LeafValue
  | text t => (t.construct raw).map .text
  | int t => (t.construct raw).map .int
  | uint t => (t.construct raw).map .uint
  | decimal p range => do
    let q ← p.construct raw
    let _ ← range.check (.decimal q.value)
    return .decimal q
  | bool => (Boolean.read raw).map .bool
  | union candidates => .error (noCandidate raw candidates)
  | reference _ => .ok (.reference (.verbatim (some raw)))

mutual

/-- The value that a type makes of a raw one; none for an absent value. -/
def construct (raw : Value) : LeafType → Except Error (Option LeafValue)
  | union candidates =>
    if raw.isEmpty then .ok none
    else
      match constructFirst raw candidates with
      | some v => .ok (some v)
      | none => .error (noCandidate raw candidates)
  | t => if raw.isEmpty then .ok none else (constructPlain raw t).map some

/-- The value that the first accepting type of a list makes of a raw one. -/
def constructFirst (raw : Value) : List LeafType → Option LeafValue
  | [] => none
  | t :: ts =>
    match construct raw t with
    | .ok (some v) => some v
    | _ => constructFirst raw ts

end

/-- An absent value leaves a leaf unset, whatever its type. -/
theorem construct_empty (t : LeafType) : t.construct .empty = .ok none := by
  cases t <;> simp [construct, Value.isEmpty]

end LeafType

end DataTree
