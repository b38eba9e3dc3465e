import DataTree.Tree.Removal

/-!
# DataTree.Tree.Build

Building subtrees from schemas.

A container gets a child for everything that its schema declares, in order, and
with each child the hooks of its field: leaves can be assigned to, everything can
be unset.  A child that belongs to a case is entered into the choices.  If
anything fails, what was built so far is removed again.
-/

namespace DataTree.Tree

/-- A description of a new element with the default value of its schema, if that
declares one. -/
def withDefault (spec : ElementSpec) (default : Value) : ElementSpec :=
  if default.isEmpty then spec else { spec with default }

/-- Enter a new child into the choices and the hooks of its container. -/
def addField (name : String) (case : Option Case) (isLeaf : Bool) (child : ElementId)
    (e : Element) : Element :=
  { e with
    choices := match case with
      | some case => e.choices.addMember case name
      | none => e.choices
    setters := if isLeaf then Assoc.insert name child e.setters else e.setters
    unsetters := Assoc.insert name (.contents child) e.unsetters }

/-- A default value has to be one that the type accepts. -/
def checkDefault (type : LeafType) (default : Value) : Except Error Unit :=
  if default.isEmpty then .ok () else (type.construct default).map fun _ => ()

/-- Carry out a step; if it fails, remove an element with all that is below it. -/
def orRemove (id : ElementId) (step : Edit Unit) : Edit Unit :=
  tryCatch step fun err => do
    removeSubtree id
    throw err

mutual

/-- Build a node and all that is below it. -/
def build : Schema → ElementSpec → Edit ElementId
  | .leaf type default, spec => do
    let spec := withDefault spec default
    Edit.ofExcept (checkDefault type spec.default)
    wrap (.leaf { type }) { spec with isLeaf := true }
  | .leafList type default, spec => wrap (.leafList { type }) (withDefault spec default)
  | .container children default, spec => do
    let id ← wrap .container { withDefault spec default with isContainer := true }
    orRemove id (populate id spec.registers children)
    return id
  | .list list default, spec =>
    wrap (.list { schema := list }) { withDefault spec default with isContainer := true }

/-- Build the children of a container. -/
def populate (id : ElementId) (registers : Bool) : List (Child Schema) → Edit Unit
  | [] => return
  | ⟨name, case, node⟩ :: rest => do
    let child ← build node { name, parent := some id, registers, case }
    update id (addField name case node.isLeaf child)
    populate id registers rest

end

/-- Build a subtree and tell about it. -/
def instantiate (schema : Schema) (spec : ElementSpec) : Edit ElementId := do
  Edit.changing fun t => t.tell (.instantiating spec.name)
  let id ← build schema spec
  let built ← Edit.reading fun t => t.subtree id
  let e ← get id
  Edit.changing fun t => t.tell (.instantiated e.path built.length)
  return id

end DataTree.Tree
