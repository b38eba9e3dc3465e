import DataTree.Element.Basic
import DataTree.Event

/-!
# DataTree.Tree.State

The state of a tree, and edits of it.

A `Tree` is a row of slots.  An element occupies the slot that its id names, a
removed one leaves its slot empty for good, and new ones get a slot at the end.
So an element's parent is always in an earlier slot and what is below it in later
ones.  With the elements come the registry, the events not yet collected, and the
number of keys that were made up for lists without a key.

An `Edit` works on a tree and may fail; what it did before it failed stays done.
Where an operation promises more than that, it plans before it acts.
-/

namespace DataTree

/-- A tree with its registry and what it has told. -/
structure Tree where
  slots : Array (Option Element) := #[]
  /-- The number of elements. -/
  live : Nat := 0
  registry : Registry := {}
  events : List Event := []
  /-- The number of keys that were made up. -/
  madeKeys : Nat := 0

/-- A step on a tree that gives a value or fails, in either case with the tree as
it is then. -/
abbrev Edit (α : Type) := ExceptT Error (StateM Tree) α

namespace Edit

/-- Carry out an edit. -/
def on {α : Type} (edit : Edit α) (t : Tree) : Except Error α × Tree := (edit.run).run t

/-- A step that only looks at the tree. -/
def reading {α : Type} (f : Tree → Except Error α) : Edit α :=
  ExceptT.mk fun t => (f t, t)

/-- A step that changes the tree and cannot fail. -/
def changing (f : Tree → Tree) : Edit Unit :=
  ExceptT.mk fun t => (.ok (), f t)

/-- A result that does not depend on the tree. -/
def ofExcept {α : Type} (x : Except Error α) : Edit α := reading fun _ => x

@[simp] theorem on_reading {α : Type} (f : Tree → Except Error α) (t : Tree) :
    (reading f).on t = (f t, t) := rfl

@[simp] theorem on_changing (f : Tree → Tree) (t : Tree) :
    (changing f).on t = (.ok (), f t) := rfl

@[simp] theorem on_pure {α : Type} (a : α) (t : Tree) :
    (pure a : Edit α).on t = (.ok a, t) := rfl

@[simp] theorem on_throw {α : Type} (e : Error) (t : Tree) :
    (throw e : Edit α).on t = (.error e, t) := rfl

/-- The second step starts from the tree that the first one leaves. -/
theorem on_bind {α β : Type} (x : Edit α) (f : α → Edit β) (t : Tree) :
    (x >>= f).on t =
      match x.on t with
      | (.ok a, t') => (f a).on t'
      | (.error e, t') => (.error e, t') := by
  simp only [on, ExceptT.run_bind, StateT.run_bind]
  cases h : (x.run).run t with
  | mk r t' => cases r <;> rfl

/-- What fails is given to the handler, on the tree as it was left. -/
theorem on_tryCatch {α : Type} (x : Edit α) (handler : Error → Edit α) (t : Tree) :
    (tryCatch x handler).on t =
      match x.on t with
      | (.ok a, t') => (.ok a, t')
      | (.error e, t') => (handler e).on t' := by
  unfold on ExceptT.run StateT.run
  simp only [tryCatch, tryCatchThe, MonadExceptOf.tryCatch, ExceptT.tryCatch, ExceptT.mk, bind,
    StateT.bind]
  cases h : x t with
  | mk r t' => cases r <;> rfl

end Edit

namespace Tree

/-! ## Elements -/

/-- The element of an id. -/
def element? (t : Tree) (id : ElementId) : Option Element := (t.slots[id.index]?).join

/-- The element of an id, or the error that there is none. -/
def element (t : Tree) (id : ElementId) : Except Error Element :=
  match t.element? id with
  | some e => .ok e
  | none => .error (.elementNotFound id)

def isEmpty (t : Tree) : Bool := t.live == 0

/-- The ids of all elements in ascending order. -/
def ids (t : Tree) : List ElementId :=
  ((List.range t.slots.size).map ElementId.mk).filter fun id => (t.element? id).isSome

/-- Change the element of an id, if there is one. -/
def modifyElement (t : Tree) (id : ElementId) (f : Element → Element) : Tree :=
  { t with slots := t.slots.modify id.index (Option.map f) }

/-- Changing an element changes no other one. -/
theorem element?_modifyElement (t : Tree) (id other : ElementId) (f : Element → Element) :
    (t.modifyElement id f).element? other
      = if other = id then (t.element? other).map f else t.element? other := by
  obtain ⟨i⟩ := id
  obtain ⟨j⟩ := other
  by_cases h : j = i
  · subst h
    cases hs : t.slots[j]? with
    | none => simp [element?, modifyElement, Array.getElem?_modify, hs]
    | some o => cases o <;> simp [element?, modifyElement, Array.getElem?_modify, hs]
  · have h' : ¬ i = j := fun e => h e.symm
    simp [element?, modifyElement, Array.getElem?_modify, h, h']

/-- Change the element of an id. -/
def update (id : ElementId) (f : Element → Element) : Edit Unit := do
  let _ ← Edit.reading fun t => t.element id
  Edit.changing fun t => t.modifyElement id f

/-- The element of an id. -/
def get (id : ElementId) : Edit Element := Edit.reading fun t => t.element id

@[simp] theorem on_get (id : ElementId) (t : Tree) : (get id).on t = (t.element id, t) := rfl

theorem on_update (id : ElementId) (f : Element → Element) (t : Tree) :
    (update id f).on t =
      match t.element id with
      | .ok _ => (.ok (), t.modifyElement id f)
      | .error e => (.error e, t) := by
  rw [update, Edit.on_bind, Edit.on_reading]
  cases t.element id <;> rfl

/-! ## Events and the registry -/

/-- Tell an event. -/
def tell (t : Tree) (event : Event) : Tree := { t with events := t.events ++ [event] }

/-- Collect what has been told. -/
def takeEvents (t : Tree) : List Event × Tree := (t.events, { t with events := [] })

/-- Register a target on behalf of an element, if that is registered itself. -/
def register (t : Tree) (e : Element) (path : String) (target : Target) : Tree :=
  if e.registers then
    { t.tell (.registered path target) with registry := t.registry.register path target }
  else t

/-- Drop a registration on behalf of an element. -/
def unregister (t : Tree) (e : Element) (path : String) (target : Target) : Tree :=
  if e.registers then
    { t.tell (.unregistered path target) with
      registry := t.registry.unregisterTarget path target }
  else t

/-- Register an item of a leaf-list. -/
def registerMember (t : Tree) (e : Element) (item : Value) : Tree :=
  t.register e (e.memberPath item) (.member e.id item)

/-- Drop the registration of an item of a leaf-list. -/
def unregisterMember (t : Tree) (e : Element) (item : Value) : Tree :=
  t.unregister e (e.memberPath item) (.member e.id item)

/-! ## New elements -/

/-- The path that a new element is registered at: the one asked for, or the one
below its parent, or the root. -/
def pathFor (spec : ElementSpec) (parentPath : Option String) : String :=
  match spec.registerPath, parentPath with
  | some path, _ => path
  | none, some parent => Path.child parent spec.name
  | none, none => "/"

/-- Put a content into a new element.  A parent that is a container gets it as a
child, in the place of another one of that name. -/
def wrap (content : Content) (spec : ElementSpec) : Edit ElementId := do
  let parentPath ← match spec.parent with
    | some parent => do pure (some (← get parent).path)
    | none => pure none
  let t ← Edit.reading .ok
  let id : ElementId := ⟨t.slots.size⟩
  let e := Element.ofSpec id content spec (pathFor spec parentPath)
  if let some parent := spec.parent then
    update parent fun p =>
      if p.content.isContainer then { p with children := Assoc.insert spec.name id p.children }
      else p
  Edit.changing fun t =>
    let t := t.register e e.path (.element id)
    { t with slots := t.slots.push (some e), live := t.live + 1 }
  return id

/-! ## Elements by name -/

/-- The child of a container by name. -/
def child (t : Tree) (id : ElementId) (name : String) : Except Error ElementId := do
  let e ← t.element id
  match e.child? name with
  | some c => return c
  | none => throw (.childNotFound e.path name)

/-- Follow names downwards. -/
def descend (t : Tree) (id : ElementId) : List String → Except Error ElementId
  | [] => .ok id
  | name :: names => do t.descend (← t.child id name) names

/-- The list that an element holds; `op` is what it is needed for. -/
def listFor (t : Tree) (op : String) (id : ElementId) : Except Error KeyedList := do
  let e ← t.element id
  match e.content with
  | .list l => return l
  | c => throw (.unsupported op c.typeName)

/-- The list that an element holds. -/
def keyedList (t : Tree) (id : ElementId) : Except Error KeyedList := t.listFor "keys" id

end Tree

end DataTree
