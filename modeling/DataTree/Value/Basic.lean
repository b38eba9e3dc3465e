import DataTree.Assoc
import DataTree.Decimal.Reader

/-!
# DataTree.Value.Basic

Dynamic values: what is handed to a leaf type, what a leaf holds in raw form,
and what reading a subtree gives.

Two values are the same, `Value.same`, when they are of the same kind and agree
in content: integers of different signedness differ, decimals are compared by
value, and tables ignore the order of their names.

A value is `Proper` if every table in it has a name once, as all have that
`Value.ofFields` makes.
-/

namespace DataTree

/-- A raw value or a snapshot. -/
inductive Value where
  /-- No value at all. -/
  | empty
  | bool (b : Bool)
  | int (n : Int64)
  | uint (n : UInt64)
  | decimal (d : Decimal)
  | text (s : String)
  /-- A sequence, such as the items of a leaf-list. -/
  | list (items : List Value)
  /-- Named values in order, such as the children of a container. -/
  | map (fields : List (String × Value))

namespace Value

instance : Inhabited Value := ⟨empty⟩

/-- Whether there is no value. -/
def isEmpty : Value → Bool
  | empty => true
  | _ => false

/-- The word for the kind of a value. -/
def kind : Value → String
  | empty => "empty"
  | bool _ => "bool"
  | int _ => "int"
  | uint _ => "uint"
  | decimal _ => "decimal"
  | text _ => "string"
  | list _ => "list"
  | map _ => "map"

def text? : Value → Option String
  | text s => some s
  | _ => none

def list? : Value → Option (List Value)
  | list items => some items
  | _ => none

def map? : Value → Option (List (String × Value))
  | map fields => some fields
  | _ => none

/-- The table that entering the pairs one after another leaves. -/
def ofFields (pairs : List (String × Value)) : Value := map (Assoc.ofList pairs)

/-! ## Equality of values -/

mutual

/-- Equality of values. -/
def same : Value → Value → Bool
  | empty, empty => true
  | bool a, bool b => a == b
  | int a, int b => a == b
  | uint a, uint b => a == b
  | decimal a, decimal b => a.same b
  | text a, text b => a == b
  | list as, list bs => sameItems as bs
  | map as, map bs => as.length == bs.length && sameFields as bs
  | _, _ => false

/-- Equality of sequences, item by item. -/
def sameItems : List Value → List Value → Bool
  | [], [] => true
  | a :: as, b :: bs => same a b && sameItems as bs
  | _, _ => false

/-- Whether every pair of the first table has an equal one in the second. -/
def sameFields : List (String × Value) → List (String × Value) → Bool
  | [], _ => true
  | (name, a) :: as, bs =>
    (match Assoc.get? name bs with
      | some b => same a b
      | none => false) && sameFields as bs

end

instance : BEq Value := ⟨same⟩

/-- Numbers of different signedness are different values. -/
example : same (int 1) (uint 1) = false := rfl

/-- The order of names does not matter. -/
example : same (map [("a", bool true), ("b", empty)]) (map [("b", empty), ("a", bool true)])
    = true := by decide +kernel

/-! ## Proper values -/

mutual

/-- Every table in a value has a name once. -/
def Proper : Value → Prop
  | .list items => ProperItems items
  | .map fields => (Assoc.keys fields).Nodup ∧ ProperFields fields
  | _ => True

/-- The same for the items of a sequence. -/
def ProperItems : List Value → Prop
  | [] => True
  | v :: vs => Proper v ∧ ProperItems vs

/-- The same for the values of a table. -/
def ProperFields : List (String × Value) → Prop
  | [] => True
  | (_, v) :: rest => Proper v ∧ ProperFields rest

end

end Value

end DataTree
