import DataTree.Tree.Change
import DataTree.Tree.Read

/-!
# DataTree.Tree.Assign

Assigning to leaves.

A reference leaf is resolved when it is assigned to:

1. if its path leads to exactly one element, and that is a leaf, the reference
   becomes a pointer to it, and a value goes to that leaf, through the field of
   its parent that has the name of the referred leaf;
2. otherwise, if an instance is required, the value has to be one of the
   candidates that the path leads to, or a key or an item within one;
3. otherwise the value is kept as it is.

A union with references among its candidates tries them on the tree, in order;
what a candidate did to the tree before it failed stays done.

The leaf that a value goes to may be a reference in turn, so assigning follows a
chain of references.  Only references in a circle have a chain that is longer
than the number of slots.
-/

namespace DataTree.Tree

/-! ## Candidates for required instances -/

/-- Whether a value is what a target holds, or a key or an item of it. -/
def admits (t : Tree) (raw : Value) : Target → Except Error Bool
  | .member _ v => .ok (v.toText == raw.toText)
  | .element id => do
    let e ← t.element id
    match e.content with
    | .list l => return l.contains raw.toText
    | .leafList l => return l.items.any fun item => item.toText == raw.toText
    | .container => return false
    | _ => return (← t.value id).toText == raw.toText

/-- Whether one of the targets admits a value; they are asked in order. -/
def anyAdmits (t : Tree) (raw : Value) : List Target → Except Error Bool
  | [] => .ok false
  | c :: cs => do if ← t.admits raw c then return true else t.anyAdmits raw cs

/-- What a candidate is called in messages: its value, or the keys of a list. -/
def label (t : Tree) : Target → Except Error String
  | .member _ v => .ok v.toText
  | .element id => do
    let e ← t.element id
    match e.content with
    | .list l => return "[" ++ Text.commaList l.keys ++ "]"
    | _ => return (← t.value id).toText

/-! ## References -/

/-- A value that was given; an absent one was not. -/
def given (raw : Value) : Option Value := if raw.isEmpty then none else some raw

/-- The setter of a field, called on behalf of `owner`. -/
def setterFor (e : Element) (owner field : String) : Except Error ElementId :=
  match Assoc.get? field e.setters with
  | some leaf => .ok leaf
  | none => .error (.unsupported ("set_" ++ field) owner)

/-- Assign to a leaf through the field of its parent; `assign` does it. -/
def writeThrough (assign : ElementId → Value → Edit Unit) (target : Element) (field : String)
    (raw : Value) : Edit Unit := do
  match target.parent with
  | none => throw (.unsupported ("set_" ++ field) "root")
  | some parent =>
    let p ← get parent
    let leaf ← Edit.ofExcept (setterFor p p.name field)
    assign leaf raw

/-- The value of a reference that is no pointer, by the candidates that its path
leads to. -/
def choose (t : Tree) (r : ReferenceType) (found : List Target) (raw : Value) :
    Except Error ReferenceValue :=
  if !r.requiresInstance then .ok (.verbatim (given raw))
  else if raw.isEmpty then .ok (.checked none)
  else do
    if ← t.anyAdmits raw found then return .checked (some raw)
    else throw (.unresolved raw.toText r.path (← found.mapM t.label))

/-- Resolve a reference of an element for a value that is assigned to it; `assign`
assigns to another leaf. -/
def resolveWith (assign : ElementId → Value → Edit Unit) (r : ReferenceType) (caller : ElementId)
    (raw : Value) : Edit ReferenceValue := do
  let e ← get caller
  if !e.registers then return .verbatim (given raw)
  let found ← Edit.reading fun t => .ok (t.targetsFrom e r.path)
  let target? ← match found with
    | [.element id] => do
      let target ← get id
      pure (if target.isLeaf then some target else none)
    | _ => pure none
  match target? with
  | some target =>
    if !raw.isEmpty then writeThrough assign target r.leafName raw
    return .pointer r.path
  | none => Edit.reading fun t => t.choose r found raw

/-! ## Construction on the tree -/

mutual

/-- The value that a type makes of a raw one, where `resolve` resolves references. -/
def constructOn (resolve : ReferenceType → Edit ReferenceValue) (raw : Value) :
    LeafType → Edit (Option LeafValue)
  | .reference r => do return some (.reference (← resolve r))
  | .union candidates => do
    if (LeafType.union candidates).involvesReference then
      if raw.isEmpty then return none
      match ← constructFirstOn resolve raw candidates with
      | some v => return some v
      | none => throw (LeafType.noCandidate raw candidates)
    else Edit.ofExcept ((LeafType.union candidates).construct raw)
  | t => Edit.ofExcept (t.construct raw)

/-- The value that the first accepting type of a list makes of a raw one. -/
def constructFirstOn (resolve : ReferenceType → Edit ReferenceValue) (raw : Value) :
    List LeafType → Edit (Option LeafValue)
  | [] => return none
  | t :: ts => do
    let accepted ← tryCatch (constructOn resolve raw t) fun _ => pure none
    match accepted with
    | some v => return some v
    | none => constructFirstOn resolve raw ts

end

/-! ## Assignment -/

/-- The type of a leaf. -/
def leafType (e : Element) : Except Error LeafType :=
  match e.content with
  | .leaf slot => .ok slot.type
  | content => .error (.unsupported "set_leaf" content.typeName)

theorem leafType_eq_ok_iff {e : Element} {type : LeafType} :
    leafType e = .ok type ↔ ∃ slot, e.content = .leaf slot ∧ slot.type = type := by
  unfold leafType
  cases e.content <;> simp

/-- Put a value into the slot of a leaf. -/
def store (value : Option LeafValue) (e : Element) : Element :=
  match e.content with
  | .leaf slot => { e with content := .leaf { slot with value } }
  | _ => e

/-- Assign to a leaf; `fuel` bounds the length of a chain of references. -/
def assignFrom : (fuel : Nat) → ElementId → Value → Edit Unit
  | 0, id, _ => throw (.circularReference id)
  | fuel + 1, id, raw => do
    let p ← Edit.reading fun t => t.plan id none
    let e ← get id
    let type ← Edit.ofExcept (leafType e)
    let value ← constructOn (fun r => resolveWith (assignFrom fuel) r id raw) raw type
    runUnsets p.unsets
    update id (store value)
    markChanged p.marks

/-- Assign to a leaf; an absent value unsets it. -/
def setLeaf (id : ElementId) (raw : Value) : Edit Unit := do
  let t ← Edit.reading .ok
  assignFrom (t.slots.size + 1) id raw

/-- Assign to a field of a container; the answer is whether there is a hook for it. -/
def setField (id : ElementId) (field : String) (raw : Value) : Edit Bool := do
  let e ← get id
  match Assoc.get? field e.setters with
  | some leaf => do
    setLeaf leaf raw
    return true
  | none => return false

/-- Resolve a reference of an element for a value. -/
def resolveReference (r : ReferenceType) (caller : ElementId) (raw : Value) :
    Edit ReferenceValue := do
  let t ← Edit.reading .ok
  resolveWith (assignFrom (t.slots.size + 1)) r caller raw

end DataTree.Tree
