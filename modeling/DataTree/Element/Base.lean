import DataTree.Error
import DataTree.Value.Text

/-!
# DataTree.Element.Base

Operations on items, and the bases that callers may supply for elements.

A tree does not look into a supplied base; it asks for its name and its value, and has
it carry out operations.  So a base is known by its `Answers`, and these depend on what
it has carried out before: a `Base` is a function from histories to answers, together
with its history.  An operation that fails is not part of the history, which is the
promise that every base gives: what fails leaves it exactly as it was.

`Base.counter` and `Base.fixed` are two examples.
-/

namespace DataTree

/-! ## Operations on items -/

/-- An operation on one item of a sequence. -/
inductive ItemEdit where
  | append (raw : Value)
  | insert (index : Nat) (raw : Value)
  | remove (raw : Value)
  | pop (index : Option Nat)

namespace ItemEdit

/-- The name of the operation in messages. -/
def name : ItemEdit → String
  | append _ => "append"
  | insert _ _ => "insert"
  | remove _ => "remove"
  | pop _ => "pop"

/-- Whether the operation adds an item; otherwise it takes one away. -/
def adds : ItemEdit → Bool
  | append _ | insert _ _ => true
  | remove _ | pop _ => false

/-- The value that is handed over is proper. -/
def Proper : ItemEdit → Prop
  | append raw | insert _ raw | remove raw => raw.Proper
  | pop _ => True

end ItemEdit

/-! ## Supplied bases -/

/-- What a base is asked to carry out. -/
inductive BaseOp where
  | edit (op : ItemEdit)
  | extend (raws : List Value)
  | clear

/-- The values that are handed over are proper. -/
def BaseOp.Proper : BaseOp → Prop
  | edit op => op.Proper
  | extend raws => ∀ raw ∈ raws, raw.Proper
  | clear => True

/-- What a base answers in one of its states: its name in messages, its value as it is held
and as it is read, and what every operation gives.  One that it does not have fails. -/
structure Answers where
  typeName : String
  supplied : Value
  snapshot : Value := supplied
  edit : ItemEdit → Except Error Value := fun op => .error (.unsupported op.name typeName)
  extend : List Value → Except Error (List Value) :=
    fun _ => .error (.unsupported "extend" typeName)
  clear : Except Error (List Value) := .error (.unsupported "unset" typeName)

/-- A base that a caller supplies: what it answers after what it has carried out, and what
it has carried out so far. -/
structure Base where
  answers : List BaseOp → Answers
  done : List BaseOp := []

namespace Base

/-- What the base answers now. -/
def now (b : Base) : Answers := b.answers b.done

/-- The base after one more operation. -/
def carry (b : Base) (op : BaseOp) : Base := { b with done := b.done ++ [op] }

/-- Apply an operation on one item. -/
def edit (b : Base) (op : ItemEdit) : Except Error (Value × Base) :=
  (b.now.edit op).map fun v => (v, b.carry (.edit op))

/-- Add several items. -/
def extend (b : Base) (raws : List Value) : Except Error (List Value × Base) :=
  (b.now.extend raws).map fun vs => (vs, b.carry (.extend raws))

/-- Return to the empty state. -/
def clear (b : Base) : Except Error (List Value × Base) :=
  b.now.clear.map fun vs => (vs, b.carry .clear)

/-! ## Examples -/

/-- The sum of the numbers that were appended, and what there was to begin with. -/
def sum (start : UInt64) (done : List BaseOp) : UInt64 :=
  done.foldl (fun total op =>
    match op with
    | .edit (.append (.uint n)) => total + n
    | _ => total) start

/-- A sum that only grows: appending a number adds it. -/
def counter (start : UInt64) : Base where
  answers done :=
    { typeName := "counter"
      supplied := .uint (sum start done)
      edit
        | .append (.uint n) => .ok (.uint (sum start done + n))
        | .append v => .error (.typeMismatch v.toText "uint")
        | op => .error (.unsupported op.name "counter") }

/-- A value that never changes. -/
def fixed (value : Value) : Base where
  answers _ := { typeName := "opaque", supplied := value }

end Base

end DataTree
