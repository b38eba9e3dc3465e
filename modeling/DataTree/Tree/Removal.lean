import DataTree.Tree.State

/-!
# DataTree.Tree.Removal

Removing elements and returning them to their default state.

* `subtree` lists an element and all that is below it, each one after what is
  below it.
* `removeSubtree` detaches an element from its parent and empties the slots of its
  subtree in that order, dropping every registration.
* `unset` empties what holds data: leaves and leaf-lists are cleared, the entries
  of lists removed.  Containers hold nothing themselves; `holders` lists what does.
  The marks of change stay.
-/

namespace DataTree.Tree

/-! ## Subtrees -/

/-- An element and what is below it, from the leaves up; `fuel` bounds the depth. -/
def subtreeFrom (t : Tree) : (fuel : Nat) → ElementId → Except Error (List ElementId)
  | 0, id => .error (.elementNotFound id)
  | fuel + 1, id => do
    let e ← t.element id
    let below ← e.below.mapM (t.subtreeFrom fuel)
    return below.flatten ++ [id]

/-- An element and what is below it, from the leaves up.  What is below an element
is in later slots, so there are fewer levels than slots. -/
def subtree (t : Tree) (id : ElementId) : Except Error (List ElementId) :=
  t.subtreeFrom t.slots.size id

/-- Empty a slot and drop the registrations of the element and of its items. -/
def drop (t : Tree) (id : ElementId) : Tree :=
  match t.element? id with
  | none => t
  | some e =>
    let t := { t with slots := t.slots.setIfInBounds id.index none, live := t.live - 1 }
    let t := e.content.members.foldl (fun t item => t.unregisterMember e item) t
    t.unregister e e.path (.element id)

/-- Take an element out of its parent. -/
def detach (t : Tree) (e : Element) : Tree :=
  match e.parent with
  | some parent => t.modifyElement parent fun p => p.detach e.name e.id
  | none => t

/-- Remove an element with all that is below it. -/
def removeSubtree (id : ElementId) : Edit Unit := do
  let doomed ← Edit.reading fun t => t.subtree id
  let e ← get id
  Edit.changing fun t => doomed.foldl drop (t.detach e)

/-! ## Default states -/

/-- The elements that hold data at or below an element without a list between
them; `fuel` bounds the depth. -/
def holdersFrom (t : Tree) : (fuel : Nat) → ElementId → Except Error (List ElementId)
  | 0, id => .error (.elementNotFound id)
  | fuel + 1, id => do
    let e ← t.element id
    if e.content.isContainer then
      let below ← (e.children.map Prod.snd).mapM (t.holdersFrom fuel)
      return below.flatten
    else return [id]

/-- The elements that hold data at or below an element without a list between
them. -/
def holders (t : Tree) (id : ElementId) : Except Error (List ElementId) :=
  t.holdersFrom t.slots.size id

/-- Empty a single holder: remove the entries of a list, clear any other content
and drop the registrations of the items of a leaf-list. -/
def clear (id : ElementId) : Edit Unit := do
  let e ← get id
  match e.content with
  | .list l =>
    update id fun e => { e with content := .list { l with members := [] } }
    l.entries.forM removeSubtree
  | content =>
    let (_, cleared) ← Edit.ofExcept content.clear
    update id fun e => { e with content := cleared }
    Edit.changing fun t => content.members.foldl (fun t item => t.unregisterMember e item) t

/-- Return an element to its default state. -/
def unset (id : ElementId) : Edit Unit := do
  let holders ← Edit.reading fun t => t.holders id
  holders.forM clear

/-- Do what a hook says. -/
def runUnset : Unset → Edit Unit
  | .contents id => unset id
  | .subtree id => removeSubtree id

end DataTree.Tree
