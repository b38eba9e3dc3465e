import DataTree.Element.Choice
import DataTree.Element.Content
import DataTree.Path

/-!
# DataTree.Element.Basic

Elements: the nodes of a tree.  An element has a name, a parent, the path that it
is registered at, a default value and a mark that says whether it was ever
assigned to; it holds a `Content`, and, if that is a container, children by name.

A container also keeps *hooks* for its fields: where an assignment to a field
goes, and what unsetting it does.  They are set up with the children and stay
when children are removed.

Registering is done through one registry, which belongs to the tree.  An element
holds no handle on it; it only says whether it takes part (`Element.registers`).
So there are no elements of one tree that are registered in different places, and
an element that does not take part neither registers nor looks anything up.
-/

namespace DataTree

/-- What unsetting a field does. -/
inductive Unset where
  /-- Return an element to its default state. -/
  | contents (id : ElementId)
  /-- Remove an element with all that is below it. -/
  | subtree (id : ElementId)
  deriving DecidableEq, Repr

/-- How a new element is to be made. -/
structure ElementSpec where
  name : String
  parent : Option ElementId := none
  /-- Whether the element and what is below it are registered. -/
  registers : Bool := false
  default : Value := .empty
  isContainer : Bool := false
  isLeaf : Bool := false
  case : Option Case := none
  /-- The path to register at, instead of the one below the parent. -/
  registerPath : Option String := none

/-- A node of a tree. -/
structure Element where
  id : ElementId
  name : String
  parent : Option ElementId
  path : String
  registers : Bool
  default : Value
  /-- Whether the element, or something below it, was assigned to. -/
  changed : Bool
  isContainer : Bool
  isLeaf : Bool
  case : Option Case
  content : Content
  children : List (String × ElementId) := []
  /-- The leaves that assignments to fields go to. -/
  setters : List (String × ElementId) := []
  unsetters : List (String × Unset) := []
  choices : ChoiceTable := {}

namespace Element

/-- A new element.  It counts as changed if its content already holds a value
other than the default. -/
def ofSpec (id : ElementId) (content : Content) (spec : ElementSpec) (path : String) : Element :=
  let supplied := content.supplied
  { id
    name := spec.name
    parent := spec.parent
    path
    registers := spec.registers
    default := spec.default
    changed := !supplied.isEmpty && !supplied.same spec.default
    isContainer := spec.isContainer
    isLeaf := spec.isLeaf
    case := spec.case
    content }

/-- The child of a name. -/
def child? (e : Element) (name : String) : Option ElementId := Assoc.get? name e.children

/-- The elements directly below: children, then entries. -/
def below (e : Element) : List ElementId := e.children.map Prod.snd ++ e.content.entries

/-- The path of an item of a leaf-list. -/
def memberPath (e : Element) (item : Value) : String := Path.child e.path item.toText

/-- Forget a child or an entry. -/
def detach (e : Element) (name : String) (id : ElementId) : Element :=
  match e.content with
  | .container =>
    if e.child? name = some id then { e with children := Assoc.erase name e.children } else e
  | .list l => { e with content := .list (l.forget id) }
  | _ => e

end Element

/-! ## In logs -/

private def boolOutline (b : Bool) : String := if b then "true" else "false"

private def optionOutline (s : Option String) : String :=
  match s with
  | some s => "Some(" ++ s ++ ")"
  | none => "None"

/-- A case in logs. -/
def Case.outline (c : Case) : String :=
  "ChoiceMember \x7b choice: " ++ Text.quote c.choice ++ ", case: " ++ Text.quote c.case ++ " \x7d"

/-- A description of a new element in logs. -/
def ElementSpec.outline (s : ElementSpec) : String :=
  "ElementSpec \x7b name: " ++ Text.quote s.name
    ++ ", parent: " ++ optionOutline (s.parent.map ElementId.outline)
    ++ ", path_helper: " ++ boolOutline s.registers
    ++ ", default: " ++ s.default.outline
    ++ ", is_container: " ++ boolOutline s.isContainer
    ++ ", is_leaf: " ++ boolOutline s.isLeaf
    ++ ", choice: " ++ optionOutline (s.case.map Case.outline)
    ++ ", register_path: " ++ optionOutline (s.registerPath.map Text.quote) ++ " \x7d"

namespace Element

/-- Names in ascending order. -/
def sortedNames (names : List String) : List String := names.mergeSort fun a b => !decide (b < a)

/-- The fields that have hooks, in logs. -/
def fieldsOutline (e : Element) : String :=
  "FieldTable \x7b setters: " ++ Text.quoteList (sortedNames (Assoc.keys e.setters))
    ++ ", unsetters: " ++ Text.quoteList (sortedNames (Assoc.keys e.unsetters)) ++ " \x7d"

/-- An element in logs; of a content other than a container only the type is named. -/
def outline (e : Element) : String :=
  "Element \x7b id: " ++ e.id.outline ++ ", yang_name: " ++ Text.quote e.name
    ++ ", path: " ++ Text.quote e.path ++ ", changed: " ++ boolOutline e.changed
    ++ ", base: " ++ (if e.content.isContainer then "Container" else e.content.typeName) ++ " \x7d"

end Element

end DataTree
