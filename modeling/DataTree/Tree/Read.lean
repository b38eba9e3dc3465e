import DataTree.Tree.State

/-!
# DataTree.Tree.Read

Reading.  A leaf reads as its value, or as its default while it is unset; a
reference that is a live pointer reads as whatever its path leads to at that
moment.  Containers read as the table of their children and lists as the table of
their entries.

A filtered snapshot leaves out the children of containers that never changed.
-/

namespace DataTree.Tree

/-- The targets that a path leads to, seen from an element; an element that is not
registered sees none. -/
def targetsFrom (t : Tree) (e : Element) (path : String) : List Target :=
  if e.registers then t.registry.lookup path (some e.path) else []

/-- The children of a container that a snapshot shows. -/
def shownChildren (t : Tree) (filtered : Bool) (e : Element) :
    Except Error (List (String × ElementId)) :=
  if filtered then e.children.filterM fun (_, child) => return (← t.element child).changed
  else .ok e.children

/-- The snapshot of an element; `fuel` bounds how often reading goes down or
follows a pointer. -/
def snapshotFrom (t : Tree) : (fuel : Nat) → (filtered : Bool) → ElementId → Except Error Value
  | 0, _, id => .error (.circularReference id)
  | fuel + 1, filtered, id => do
    let e ← t.element id
    let below (name : String) (child : ElementId) : Except Error (String × Value) := do
      return (name, ← t.snapshotFrom fuel filtered child)
    match e.content with
    | .container =>
      let children ← t.shownChildren filtered e
      return .map (← children.mapM fun (name, child) => below name child)
    | .list l => return .map (← l.members.mapM fun (key, entry) => below key entry)
    | .leaf slot =>
      match slot.value with
      | some (.reference (.pointer path)) =>
        match t.targetsFrom e path with
        | [.element target] => t.snapshotFrom fuel false target
        | [.member _ v] => return v
        | found => throw (.invalidPointer path found.length)
      | some v => return if v.toValue.isEmpty then e.default else v.toValue
      | none => return e.default
    | content => return content.snapshot

/-- The snapshot of an element's subtree.  Going down and following pointers pass
through every element at most once, unless pointers lead around in a circle. -/
def snapshot (t : Tree) (filtered : Bool) (id : ElementId) : Except Error Value :=
  t.snapshotFrom (t.slots.size + 1) filtered id

/-- The value of an element. -/
def value (t : Tree) (id : ElementId) : Except Error Value := t.snapshot false id

end DataTree.Tree
