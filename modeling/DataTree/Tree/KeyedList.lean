import DataTree.Tree.Assign
import DataTree.Tree.Build

/-!
# DataTree.Tree.KeyedList

Lists of a tree.  An entry is a container built from the schema of the list, a
child of the list in all but name, and registered at the path of the list with a
predicate made of its key.  The key leaves of a new entry are assigned the parts
of its key, in order.

Lists without a key get a key made up for every entry, and all their entries are
registered at the path of the list itself.
-/

namespace DataTree.Tree

/-- A list to be changed. -/
def listToChange (id : ElementId) : Edit KeyedList := Edit.reading fun t => t.listFor "add" id

/-- Change the list that an element holds. -/
def updateList (id : ElementId) (f : KeyedList → KeyedList) : Edit Unit :=
  update id fun e =>
    match e.content with
    | .list l => { e with content := .list (f l) }
    | _ => e

/-- The entry of a key. -/
def entry (t : Tree) (id : ElementId) (key : String) : Except Error ElementId := do
  let l ← t.listFor "add" id
  match l.get? key with
  | some entry => return entry
  | none => throw (.missingKey (← t.element id).path key)

/-- The `n`-th key that is made up. -/
def madeKey (n : Nat) : String := "$k" ++ Numeral.natText n

/-- The key of a new entry, its parts, and the path that the entry is registered
at. -/
def entryKey (l : KeyedList) (path : String) (made : Nat) (key : Option String) :
    Except Error (String × List String × String) :=
  let spec := l.schema.key
  if spec.isKeyless then .ok (madeKey made, [], path)
  else
    match key with
    | none => .error (.keyArity path spec.fields "")
    | some key =>
      if l.contains key then .error (.duplicateKey path key)
      else do
        let parts ← spec.split path key
        return (key, parts, path ++ spec.predicate parts)

/-- Assign the parts of a key to the key leaves of an entry. -/
def assignKey (entry : ElementId) : List (String × String) → Edit Unit
  | [] => return
  | (field, part) :: rest => do
    let e ← get entry
    let leaf ← Edit.ofExcept (setterFor e "list entry" field)
    setLeaf leaf (.text part)
    assignKey entry rest

/-- Build the entry of a key and put it into the list; if a part of the key is
refused, the entry and the marks that were set for it go again. -/
def addEntry (id : ElementId) (key : Option String) : Edit String := do
  let p ← Edit.reading fun t => t.plan id none
  let e ← get id
  let l ← Edit.reading fun t => t.keyedList id
  let t ← Edit.reading .ok
  let (key, parts, path) ← Edit.ofExcept (entryKey l e.path t.madeKeys key)
  let entry ← build (.container l.schema.entry .empty)
    { name := e.name, parent := some id, registers := e.registers, registerPath := some path }
  let before ← Edit.reading fun t => t.marks id
  tryCatch (assignKey entry (l.schema.key.fields.zip parts)) fun err => do
    removeSubtree entry
    restoreMarks before
    throw err
  updateList id fun l => l.insert key entry
  if l.schema.key.isKeyless then
    Edit.changing fun t => { t with madeKeys := t.madeKeys + 1 }
  commit p
  return key

/-- Add an entry and tell about it; the key comes back. -/
def add (id : ElementId) (key : Option String) : Edit String := do
  let _ ← listToChange id
  let e ← get id
  Edit.changing fun t => t.tell (.adding e.path)
  let key ← addEntry id key
  Edit.changing fun t => t.tell (.added e.path key)
  return key

/-- Remove the entry of a key with all that is below it, and tell about it. -/
def delete (id : ElementId) (key : String) : Edit Unit := do
  let _ ← listToChange id
  let e ← get id
  Edit.changing fun t => t.tell (.deleting e.path key)
  let p ← Edit.reading fun t => t.plan id none
  let l ← listToChange id
  match l.take? key with
  | none => throw (.missingKey e.path key)
  | some (entry, rest) =>
    updateList id fun _ => rest
    removeSubtree entry
    commit p
    Edit.changing fun t => t.tell (.deleted e.path key)

end DataTree.Tree
