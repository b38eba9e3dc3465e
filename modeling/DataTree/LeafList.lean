import DataTree.Leaf.Type

/-!
# DataTree.LeafList

Leaf-lists: ordered sequences of items, each accepted by at least one of the
allowed types.  An item is kept in the raw form of the value that the first
accepting type makes of it, so that the text `5` is held as a number in a
leaf-list of integers.  No operation stores anything when it fails.
-/

namespace DataTree

/-- What the items of a leaf-list may be. -/
structure LeafListType where
  allowed : List LeafType

namespace LeafListType

/-- A leaf-list type in messages. -/
def text (t : LeafListType) : String :=
  "leaf-list of (" ++ Text.commaList (LeafType.descriptions t.allowed) ++ ")"

/-- The form in which an item is kept; an absent value never is one. -/
def check (t : LeafListType) (raw : Value) : Except Error Value :=
  match LeafType.constructFirst raw t.allowed with
  | some v => .ok v.toValue
  | none => .error (.itemRejected raw.toText (LeafType.descriptions t.allowed))

/-- The forms in which several items are kept; the first rejection is reported. -/
def checkAll (t : LeafListType) (raws : List Value) : Except Error (List Value) :=
  raws.mapM t.check

end LeafListType

/-- A leaf-list and its items. -/
structure LeafList where
  type : LeafListType
  items : List Value := []

namespace LeafList

/-- The leaf-list of a type with the given items. -/
def ofItems (type : LeafListType) (raws : List Value) : Except Error LeafList :=
  (type.checkAll raws).map fun items => ⟨type, items⟩

def length (l : LeafList) : Nat := l.items.length

def isEmpty (l : LeafList) : Bool := l.items.isEmpty

/-- Add an item at the end; the item as it is kept comes with the new list. -/
def append (l : LeafList) (raw : Value) : Except Error (Value × LeafList) := do
  let v ← l.type.check raw
  return (v, { l with items := l.items ++ [v] })

/-- Add an item before a position; behind the end it is added at the end. -/
def insert (l : LeafList) (index : Nat) (raw : Value) : Except Error (Value × LeafList) := do
  let v ← l.type.check raw
  return (v, { l with items := l.items.take index ++ v :: l.items.drop index })

/-- Replace the item at a position; the old one comes with the new list. -/
def set (l : LeafList) (index : Nat) (raw : Value) : Except Error (Value × LeafList) :=
  match l.items[index]? with
  | none => .error (.indexOutOfRange index l.length)
  | some old => do
    let v ← l.type.check raw
    return (old, { l with items := l.items.set index v })

/-- What a raw value is compared as: its accepted form, or itself where there is
none. -/
def probe (l : LeafList) (raw : Value) : Value :=
  match l.type.check raw with
  | .ok v => v
  | .error _ => raw

/-- The position of the first item equal to a value. -/
def indexOf? (l : LeafList) (raw : Value) : Option Nat :=
  l.items.findIdx? fun item => item.same (l.probe raw)

/-- Remove the item at a position, or the last one. -/
def pop (l : LeafList) (index : Option Nat) : Except Error (Value × LeafList) :=
  let at_ := index.getD (l.length - 1)
  match l.items[at_]? with
  | some v => .ok (v, { l with items := l.items.eraseIdx at_ })
  | none => .error (.indexOutOfRange at_ l.length)

/-- Remove the first item equal to a value. -/
def remove (l : LeafList) (raw : Value) : Except Error (Value × LeafList) :=
  match l.indexOf? raw with
  | some index => l.pop (some index)
  | none => .error (.notPresent l.type.text raw.toText)

/-- Add several items at the end, all or none of them. -/
def extend (l : LeafList) (raws : List Value) : Except Error (List Value × LeafList) := do
  let vs ← l.type.checkAll raws
  return (vs, { l with items := l.items ++ vs })

/-- Remove all items. -/
def clear (l : LeafList) : List Value × LeafList := (l.items, { l with items := [] })

end LeafList

end DataTree
