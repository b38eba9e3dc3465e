import DataTree.Tree.Removal

/-!
# DataTree.Tree.Change

Changes.  Whoever assigns to an element marks it and all elements above it as
changed, and unsets the siblings in the choices that it belongs to.

Both are planned before anything happens.  The plan climbs from the element to
the root with an *active case*: the one given, or else the first one that an
element on the way belongs to.  In every container above that declares the active
case's choice, the members of its other cases are to be unset.
-/

namespace DataTree.Tree

/-- What a change brings with it: the elements to be marked, from the changed one
up, and what is to be unset. -/
structure Plan where
  marks : List ElementId
  unsets : List Unset

/-- The hooks that unset the siblings of an active case in the choices of an
element. -/
def siblingHooks (e : Element) : Option Case → Except Error (List Unset)
  | none => .ok []
  | some active =>
    (e.choices.siblings active).mapM fun (case, member) =>
      match Assoc.get? member e.unsetters with
      | some hook => .ok hook
      | none => .error (.unmappedCase active.choice case member)

/-- The plan of a change from an element up; `fuel` bounds the length of the
climb. -/
def planFrom (t : Tree) : (fuel : Nat) → ElementId → Option Case → Except Error Plan
  | 0, id, _ => .error (.elementNotFound id)
  | fuel + 1, id, active => do
    let e ← t.element id
    let hooks ← siblingHooks e active
    match e.parent with
    | none => return ⟨[id], hooks⟩
    | some parent =>
      let above ← t.planFrom fuel parent (active.orElse fun _ => e.case)
      return ⟨id :: above.marks, hooks ++ above.unsets⟩

/-- The plan of a change.  A parent is in an earlier slot, so the climb is no longer
than the number of the slot. -/
def plan (t : Tree) (id : ElementId) (active : Option Case) : Except Error Plan :=
  t.planFrom (id.index + 1) id active

/-- Mark elements as changed. -/
def markChanged (ids : List ElementId) : Edit Unit :=
  ids.forM fun id => update id fun e => { e with changed := true }

/-- Unset the siblings, one after another. -/
def runUnsets (hooks : List Unset) : Edit Unit := hooks.forM runUnset

/-- Carry out a plan. -/
def commit (p : Plan) : Edit Unit := do
  runUnsets p.unsets
  markChanged p.marks

/-- Mark an element as changed, perhaps on behalf of a case of its own choices. -/
def set (id : ElementId) (active : Option Case) : Edit Unit := do
  let p ← Edit.reading fun t => t.plan id active
  commit p

/-! ## Fields and choices of a container -/

/-- Let assignments to a field go to a leaf. -/
def bindSetter (id : ElementId) (field : String) (leaf : ElementId) : Edit Unit :=
  update id fun e => { e with setters := Assoc.insert field leaf e.setters }

/-- Say what unsetting a field does. -/
def bindUnsetter (id : ElementId) (field : String) (hook : Unset) : Edit Unit :=
  update id fun e => { e with unsetters := Assoc.insert field hook e.unsetters }

/-- Declare a field to be a member of a case. -/
def declareMember (id : ElementId) (case : Case) (field : String) : Edit Unit :=
  update id fun e => { e with choices := e.choices.addMember case field }

/-- Unset a field; the answer is whether there is a hook for it. -/
def unsetField (id : ElementId) (field : String) : Edit Bool := do
  let e ← get id
  match Assoc.get? field e.unsetters with
  | some hook => do
    runUnset hook
    return true
  | none => return false

/-! ## Marks from an element up -/

/-- The marks of change from an element up; `fuel` bounds the length of the climb. -/
def marksFrom (t : Tree) : (fuel : Nat) → ElementId → Except Error (List (ElementId × Bool))
  | 0, id => .error (.elementNotFound id)
  | fuel + 1, id => do
    let e ← t.element id
    match e.parent with
    | none => return [(id, e.changed)]
    | some parent => return (id, e.changed) :: (← t.marksFrom fuel parent)

/-- The marks of change from an element up to the root. -/
def marks (t : Tree) (id : ElementId) : Except Error (List (ElementId × Bool)) :=
  t.marksFrom (id.index + 1) id

/-- Set marks back to what they were. -/
def restoreMarks (marks : List (ElementId × Bool)) : Edit Unit :=
  marks.forM fun (id, changed) => update id fun e => { e with changed }

/-! ## Items -/

/-- Change a single item of an element's content.  An item that was added is
registered below the element's path, one that was taken away no longer is. -/
def editItem (id : ElementId) (op : ItemEdit) : Edit Value := do
  let p ← Edit.reading fun t => t.plan id none
  let e ← get id
  let (item, content) ← Edit.ofExcept (e.content.edit op)
  update id fun e => { e with content }
  commit p
  let e ← get id
  Edit.changing fun t => if op.adds then t.registerMember e item else t.unregisterMember e item
  return item

/-- Add an item at the end. -/
def append (id : ElementId) (raw : Value) : Edit Value := editItem id (.append raw)

/-- Add an item before a position. -/
def insert (id : ElementId) (index : Nat) (raw : Value) : Edit Value :=
  editItem id (.insert index raw)

/-- Take away the first item equal to a value. -/
def remove (id : ElementId) (raw : Value) : Edit Value := editItem id (.remove raw)

/-- Take away the item at a position, or the last one. -/
def pop (id : ElementId) (index : Option Nat) : Edit Value := editItem id (.pop index)

/-- Add several items at the end, all or none of them. -/
def extend (id : ElementId) (raws : List Value) : Edit (List Value) := do
  let p ← Edit.reading fun t => t.plan id none
  let e ← get id
  let (items, content) ← Edit.ofExcept (e.content.extend raws)
  update id fun e => { e with content }
  commit p
  items.forM fun item => do
    let e ← get id
    Edit.changing fun t => t.registerMember e item
  return items

end DataTree.Tree
