import DataTree.Proofs.Contents
import DataTree.Proofs.Entries

/-!
# DataTree.Proofs.Session

Sessions: what callers do with a tree, one operation after another.  An operation
that fails is part of the session too, with what it did before it failed.

What callers hand over they have built, and it keeps the rules of how it is built: values
are proper, a schema declares every name once in a place, and a content is fresh.

`Reaches admits t t'` says that operations which `admits` allows lead from `t` to
`t'`.  What every such step keeps, the session keeps (`Reaches.keeps`).
-/

namespace DataTree

/-- What a caller may do with a tree. -/
inductive Operation where
  | wrap (content : Content) (spec : ElementSpec) (fresh : content.IsFresh)
  | instantiate (schema : Blueprint) (spec : ElementSpec)
  | set (id : ElementId) (active : Option Case)
  | setLeaf (id : ElementId) (raw : Value)
  /-- Append, insert, remove or pop a single item. -/
  | editItem (id : ElementId) (edit : ItemEdit) (proper : edit.Proper)
  | extend (id : ElementId) (raws : List Value) (proper : ∀ raw ∈ raws, raw.Proper)
  | unset (id : ElementId)
  | removeSubtree (id : ElementId)
  | add (id : ElementId) (key : Option String)
  | delete (id : ElementId) (key : String)

namespace Operation

/-- The tree after an operation, whether that succeeds or fails. -/
def after : Operation → Tree → Tree
  | wrap content spec _, t => ((Tree.wrap content spec).on t).2
  | instantiate schema spec, t => ((Tree.instantiate schema spec).on t).2
  | set id active, t => ((Tree.set id active).on t).2
  | setLeaf id raw, t => ((Tree.setLeaf id raw).on t).2
  | editItem id edit _, t => ((Tree.editItem id edit).on t).2
  | extend id raws _, t => ((Tree.extend id raws).on t).2
  | unset id, t => ((Tree.unset id).on t).2
  | removeSubtree id, t => ((Tree.removeSubtree id).on t).2
  | add id key, t => ((Tree.add id key).on t).2
  | delete id key, t => ((Tree.delete id key).on t).2

end Operation

namespace Tree

/-- One operation out of those that are admitted. -/
def Step (admits : Tree → Operation → Prop) (t t' : Tree) : Prop :=
  ∃ op, admits t op ∧ op.after t = t'

/-- Any operation at all. -/
def Unrestricted (_ : Tree) (_ : Operation) : Prop := True

/-- Admitted operations, any number of them, lead from one tree to the other. -/
def Reaches (admits : Tree → Operation → Prop) : Tree → Tree → Prop :=
  Relation.ReflTransGen (Step admits)

variable {admits : Tree → Operation → Prop} {t t' : Tree}

/-- What every admitted operation keeps, a session keeps. -/
theorem Reaches.keeps {I : Tree → Prop} (h : Reaches admits t t')
    (step : ∀ t op, I t → admits t op → I (op.after t)) (hI : I t) : I t' := by
  induction h with
  | refl => exact hI
  | tail _ hs ih =>
    obtain ⟨op, hop, rfl⟩ := hs
    exact step _ op ih hop

/-- Assigning, changing items, unsetting, and adding and deleting entries: what is done with a
tree once it has been built. -/
def Editing (_ : Tree) : Operation → Prop
  | .setLeaf _ _ | .editItem _ _ _ | .extend _ _ _ | .unset _ | .add _ _ | .delete _ _ => True
  | _ => False

/-- What editing makes of the tree that a schema describes. -/
def Grows (schema : Blueprint) (spec : ElementSpec) (t : Tree) : Prop :=
  Reaches Editing ((Operation.instantiate schema spec).after {}) t

/-- Everything that is done with a tree once it has been built: editing, marking, and removing
parts of it. -/
def Handling (_ : Tree) : Operation → Prop
  | .wrap _ _ _ | .instantiate _ _ => False
  | _ => True

/-- What any handling makes of the tree that a schema describes. -/
def Evolves (schema : Blueprint) (spec : ElementSpec) (t : Tree) : Prop :=
  Reaches Handling ((Operation.instantiate schema spec).after {}) t

/-- What is admitted may be admitted for less. -/
theorem Reaches.mono {admits' : Tree → Operation → Prop} (h : Reaches admits t t')
    (hop : ∀ {t op}, admits t op → admits' t op) : Reaches admits' t t' :=
  Relation.ReflTransGen.mono (fun _ _ hs => hs.imp fun _ hstep => hstep.imp_left hop) _ _ h

/-- An operation more. -/
theorem Reaches.andThen (h : Reaches admits t t') (op : Operation) (hop : admits t' op) :
    Reaches admits t (op.after t') := Relation.ReflTransGen.tail h ⟨op, hop, rfl⟩

/-- Editing is a way of handling. -/
theorem Grows.evolves {schema : Blueprint} {spec : ElementSpec} (h : Grows schema spec t) :
    Evolves schema spec t :=
  h.mono fun {_ op} hop => by cases op <;> trivial

/-- What frames decide, and building and removing keep, every handling keeps. -/
theorem EntryStable.handling {I : Tree → Prop} (h : EntryStable I fun _ => True)
    (hf : FrameStable I fun _ => True) {op : Operation} (hop : t.Handling op) (ht : I t) :
    I (op.after t) := by
  cases op with
  | set id active => exact h.set id active t ht
  | setLeaf id raw => exact h.setLeaf id raw t ht
  | editItem id edit => exact hf.editItem id edit t ht
  | extend id raws => exact hf.extend id raws t ht
  | unset id =>
    have hrun : Edit.Leads (Edit.Keeping I) (runUnset (.contents id)) := h.unset trivial
    exact hrun t ht
  | removeSubtree id => exact h.remove id t ht
  | add id key => exact h.add id key t ht
  | delete id key => exact h.delete id key t ht
  | _ => exact hop.elim

end Tree

end DataTree
