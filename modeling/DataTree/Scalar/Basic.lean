import DataTree.Text.Blank
import DataTree.Value.Text

/-!
# DataTree.Scalar.Basic

The base types that restrictions apply to: strings, signed and unsigned words of
64 bits, and decimals.  A base type says which raw values have a form in it,
how a bound of a range is read, and how its values are ordered and written.

Numbers are judged by what they are, not by how they come: an integer may be
given as a signed or an unsigned word, as a decimal without fractional part, or
as text.
-/

namespace DataTree

/-- A base type for restricted leaves. -/
class Scalar (α : Type) where
  /-- The name in messages. -/
  typeName : String
  /-- Whether a range makes sense. -/
  isNumeric : Bool
  /-- Read a value from text. -/
  read? : List Char → Option α
  /-- The form that a raw value has in this type, if it has one. -/
  ofValue? : Value → Option α
  toValue : α → Value
  toText : α → String
  le : α → α → Bool
  same : α → α → Bool

namespace Scalar

/-! ## Strings -/

/-- Everything but an absent value, a sequence or a table has a text. -/
def stringOfValue? : Value → Option String
  | .empty | .list _ | .map _ => none
  | v => some v.toText

instance : Scalar String where
  typeName := "string"
  isNumeric := false
  read? cs := some (String.ofList cs)
  ofValue? := stringOfValue?
  toValue := .text
  toText s := s
  le a b := !decide (b < a)
  same a b := a == b

/-! ## Integers -/

/-- A signed word from its numeral, blanks around it aside. -/
def readInt64? (cs : List Char) : Option Int64 :=
  (Numeral.readInt? (Text.trim cs)).bind Numeral.int64?

/-- An unsigned word from its numeral, blanks around it aside. -/
def readUInt64? (cs : List Char) : Option UInt64 :=
  (Numeral.readUnsigned? (Text.trim cs)).bind fun n => Numeral.uint64? n

def int64OfValue? : Value → Option Int64
  | .int n => some n
  | .uint n => Numeral.int64? n.toNat
  | .decimal d => d.toInt?.bind Numeral.int64?
  | .text s => readInt64? s.toList
  | _ => none

def uint64OfValue? : Value → Option UInt64
  | .uint n => some n
  | .int n => Numeral.uint64? n.toInt
  | .decimal d => d.toNat?.bind fun n => Numeral.uint64? n
  | .text s => readUInt64? s.toList
  | _ => none

instance : Scalar Int64 where
  typeName := "int64"
  isNumeric := true
  read? := readInt64?
  ofValue? := int64OfValue?
  toValue := .int
  toText n := Numeral.intText n.toInt
  le a b := a.toInt ≤ b.toInt
  same a b := a == b

instance : Scalar UInt64 where
  typeName := "uint64"
  isNumeric := true
  read? := readUInt64?
  ofValue? := uint64OfValue?
  toValue := .uint
  toText n := Numeral.natText n.toNat
  le a b := a.toNat ≤ b.toNat
  same a b := a == b

/-! ## Decimals -/

/-- A decimal from its numeral, blanks around it aside. -/
def readDecimal? (cs : List Char) : Option Decimal := Decimal.read? (Text.trim cs)

def decimalOfValue? : Value → Option Decimal
  | .decimal d => some d
  | .int n => some (.ofInt64 n)
  | .uint n => some (.ofUInt64 n)
  | .text s => readDecimal? s.toList
  | _ => none

instance : Scalar Decimal where
  typeName := "decimal"
  isNumeric := true
  read? := readDecimal?
  ofValue? := decimalOfValue?
  toValue := .decimal
  toText := Decimal.text
  le := Decimal.le
  same := Decimal.same

end Scalar

end DataTree
