import DataTree.Element.Base
import DataTree.ElementId
import DataTree.Schema

/-!
# DataTree.Element.Content

What elements hold.  A leaf holds a value or none, a leaf-list its items, a list
the entries under their keys; the children of a container are known to the
element itself.  Beyond these there are the bases that callers supply, `Custom`.

Not every content has every operation.  One that it does not have fails with
`Error.unsupported`, which names the operation and the content; no operation
changes anything when it fails.
-/

namespace DataTree

/-! ## The kinds of contents -/

/-- A leaf: its type, and its value where it is set. -/
structure LeafSlot where
  type : LeafType
  value : Option LeafValue := none

namespace LeafSlot

/-- A leaf that starts with a value. -/
def ofValue (type : LeafType) (raw : Value) : Except Error LeafSlot :=
  (type.construct raw).map fun v => ⟨type, v⟩

/-- The raw form of the value; an absent one if the leaf is unset. -/
def supplied (s : LeafSlot) : Value :=
  match s.value with
  | some v => v.toValue
  | none => .empty

end LeafSlot

/-- A list: its schema and the entries under their keys. -/
structure KeyedList where
  schema : ListSchema Schema
  members : List (String × ElementId) := []

namespace KeyedList

def keys (l : KeyedList) : List String := Assoc.keys l.members

def contains (l : KeyedList) (key : String) : Bool := Assoc.contains key l.members

def get? (l : KeyedList) (key : String) : Option ElementId := Assoc.get? key l.members

def length (l : KeyedList) : Nat := l.members.length

def isEmpty (l : KeyedList) : Bool := l.members.isEmpty

/-- The entries in the order of the list. -/
def entries (l : KeyedList) : List ElementId := l.members.map Prod.snd

/-- Put an entry under its key. -/
def insert (l : KeyedList) (key : String) (entry : ElementId) : KeyedList :=
  { l with members := Assoc.insert key entry l.members }

/-- Take out the entry of a key.  The others keep their order if the list is
ordered; otherwise the last one moves into the gap. -/
def take? (l : KeyedList) (key : String) : Option (ElementId × KeyedList) :=
  (l.get? key).map fun entry =>
    let members :=
      if l.schema.ordered then Assoc.erase key l.members else Assoc.swapErase key l.members
    (entry, { l with members })

/-- Forget an entry under whatever key it is. -/
def forget (l : KeyedList) (entry : ElementId) : KeyedList :=
  { l with members := l.members.filter fun m => m.2 ≠ entry }

end KeyedList

mutual

/-- What an element holds. -/
inductive Content where
  | leaf (slot : LeafSlot)
  | leafList (list : LeafList)
  /-- The children belong to the element. -/
  | container
  | list (list : KeyedList)
  | custom (base : Custom)

/-- A base that a caller supplies. -/
inductive Custom where
  | base (base : Base)
  /-- A content of another kind in a wrapping. -/
  | boxed (content : Content)

end

/-- Apply an operation on one item: the item added or taken away, and the list
after it. -/
def LeafList.edit (l : LeafList) : ItemEdit → Except Error (Value × LeafList)
  | .append raw => l.append raw
  | .insert index raw => l.insert index raw
  | .remove raw => l.remove raw
  | .pop index => l.pop index

/-- A sum that only grows. -/
def Custom.counter (start : UInt64) : Custom := .base (.counter start)

/-- A value that never changes. -/
def Custom.fixed (value : Value) : Custom := .base (.fixed value)

/-! ## What every content has -/

mutual

/-- The name of a content in messages. -/
def Content.typeName : Content → String
  | .leaf slot => slot.type.description
  | .leafList l => l.type.text
  | .container => "container"
  | .list _ => "list"
  | .custom c => c.typeName

def Custom.typeName : Custom → String
  | .base b => b.now.typeName
  | .boxed c => c.typeName

end

mutual

/-- The value as it is held, for the comparison with a default; absent where
nothing is held. -/
def Content.supplied : Content → Value
  | .leaf slot => slot.supplied
  | .leafList l => if l.isEmpty then .empty else .list l.items
  | .container | .list _ => .empty
  | .custom c => c.supplied

def Custom.supplied : Custom → Value
  | .base b => b.now.supplied
  | .boxed c => c.supplied

end

mutual

/-- The value as it is read. -/
def Content.snapshot : Content → Value
  | .leaf slot => slot.supplied
  | .leafList l => .list l.items
  | .container | .list _ => .empty
  | .custom c => c.snapshot

def Custom.snapshot : Custom → Value
  | .base b => b.now.snapshot
  | .boxed c => c.snapshot

end

/-! ## What only some contents have -/

mutual

/-- Apply an operation on one item. -/
def Content.edit (op : ItemEdit) : Content → Except Error (Value × Content)
  | .leafList l => (l.edit op).map fun (v, l) => (v, .leafList l)
  | .custom c => (c.edit op).map fun (v, c) => (v, .custom c)
  | .leaf slot => .error (.unsupported op.name slot.type.description)
  | .container => .error (.unsupported op.name "container")
  | .list _ => .error (.unsupported op.name "list")

def Custom.edit (op : ItemEdit) : Custom → Except Error (Value × Custom)
  | .base b => (b.edit op).map fun (v, b) => (v, .base b)
  | .boxed c => (c.edit op).map fun (v, c) => (v, .boxed c)

end

mutual

/-- Add several items, all or none of them. -/
def Content.extend (raws : List Value) : Content → Except Error (List Value × Content)
  | .leafList l => (l.extend raws).map fun (vs, l) => (vs, .leafList l)
  | .custom c => (c.extend raws).map fun (vs, c) => (vs, .custom c)
  | .leaf slot => .error (.unsupported "extend" slot.type.description)
  | .container => .error (.unsupported "extend" "container")
  | .list _ => .error (.unsupported "extend" "list")

def Custom.extend (raws : List Value) : Custom → Except Error (List Value × Custom)
  | .base b => (b.extend raws).map fun (vs, b) => (vs, .base b)
  | .boxed c => (c.extend raws).map fun (vs, c) => (vs, .boxed c)

end

mutual

/-- Return to the empty state; what was removed comes with it. -/
def Content.clear : Content → Except Error (List Value × Content)
  | .leaf slot =>
    let old := slot.supplied
    .ok (if old.isEmpty then [] else [old], .leaf { slot with value := none })
  | .leafList l => let (removed, l) := l.clear; .ok (removed, .leafList l)
  | .custom c => (c.clear).map fun (vs, c) => (vs, .custom c)
  | .container => .error (.unsupported "unset" "container")
  | .list _ => .error (.unsupported "unset" "list")

def Custom.clear : Custom → Except Error (List Value × Custom)
  | .base b => b.clear.map fun (vs, b) => (vs, .base b)
  | .boxed c => (c.clear).map fun (vs, c) => (vs, .boxed c)

end

namespace Content

def isContainer : Content → Bool
  | container => true
  | _ => false

theorem isContainer_iff {c : Content} : c.isContainer = true ↔ c = .container := by
  cases c <;> simp [isContainer]

/-- The items of a leaf-list, which are registered one by one. -/
def members : Content → List Value
  | leafList l => l.items
  | _ => []

/-- The entries of a list. -/
def entries : Content → List ElementId
  | list l => l.entries
  | _ => []

end Content

end DataTree
