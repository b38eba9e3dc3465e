import DataTree.Proofs.Mirror.Operations
import DataTree.Proofs.Session

/-!
# DataTree.Proofs.Mirror.Session

In every session without choices the registry mirrors the tree.
-/

namespace DataTree

open Edit

namespace Tree

variable {t : Tree}

/-- A content to make an element of by hand: a leaf, an empty leaf-list, a container, or
a list without choices in its entries. -/
def IsBase : Content → Prop
  | .leaf _ | .container => True
  | .leafList l => l.items = []
  | .list l => Schema.AllChoiceFree l.schema.entry
  | .custom _ => False

/-- Everything is registered, and no schema declares a choice. -/
def Unchosen (_ : Tree) : Operation → Prop
  | .wrap content spec _ => IsBase content ∧ spec.registers = true
  | .instantiate schema spec => schema.root.ChoiceFree ∧ spec.registers = true
  | _ => True

theorem IsBase.plain {content : Content} (h : IsBase content) :
    content.Plain ∧ content.members = [] := by
  cases content with
  | leaf slot => exact ⟨trivial, rfl⟩
  | leafList l =>
    have hitems : l.items = [] := h
    refine ⟨fun v hv => ?_, hitems⟩
    rw [hitems] at hv
    cases hv
  | container => exact ⟨trivial, rfl⟩
  | list l => exact ⟨h, rfl⟩
  | custom c => exact h.elim

/-- An operation keeps the registry a mirror, whether it succeeds or fails. -/
theorem mirrored_after {op : Operation} (h : Mirrored t) (hop : t.Unchosen op) :
    Mirrored (op.after t) := by
  have hassign := assignStable_mirrored
  have hentry := entryStable_mirrored
  cases op with
  | wrap content spec =>
    obtain ⟨hbase, hr⟩ := hop
    obtain ⟨hc, hm⟩ := IsBase.plain hbase
    exact mirrored_wrap hc hm hr t h
  | instantiate schema spec =>
    obtain ⟨hfree, hr⟩ := hop
    have hbuild := buildStable_mirrored.build schema spec (uses_of_choiceFree hfree) hr
    exact leads_instantiate hentry.tell hbuild t h
  | set id active => exact hassign.set id active t h
  | setLeaf id raw => exact hassign.setLeaf id raw t h
  | editItem id edit proper => exact mirrored_editItem id proper t h
  | extend id raws proper => exact mirrored_extend id proper t h
  | unset id => exact mirrored_unset id t h
  | removeSubtree id => exact mirrored_removeSubtree id t h
  | add id key => exact hentry.add id key t h
  | delete id key => exact hentry.delete id key t h

theorem mirrored_of_reaches (h : Reaches Unchosen {} t) : Mirrored t :=
  h.keeps (fun _ _ hm hop => mirrored_after hm hop) mirrored_empty

/-- **The registry mirrors the tree**: at every path every target is registered as often
as the elements of the tree call for it, each under the id of its slot. -/
theorem registry_mirrors_tree (h : Reaches Unchosen {} t) :
    (∀ {id e}, t.element? id = some e → e.id = id) ∧ ∀ path target,
      (t.registry.targetsAt path).countP (·.same target)
        = t.registrations.countP fun r => r.1 == path && r.2.same target := by
  have hm := mirrored_of_reaches h
  exact ⟨fun he => (hm.plain he).id_eq, hm.lists.counted⟩

/-! ## A session -/

/-- A host with tags. -/
def host : Blueprint := .container [⟨"tag", none, .leafList ⟨[.text {}]⟩⟩]

/-- A host that got a tag twice. -/
def tagged : Tree :=
  let made := (Operation.instantiate host { name := "host", registers := true }).after {}
  let once := (Operation.editItem ⟨1⟩ (.append (.text "blue")) trivial).after made
  (Operation.editItem ⟨1⟩ (.append (.text "blue")) trivial).after once

theorem reaches_tagged : Reaches Unchosen {} tagged := by
  have hfree : host.root.ChoiceFree := by
    simp [host, Blueprint.declared, declareAll, declare, Schema.ChoiceFree, Schema.AllChoiceFree]
  have hstart : Reaches Unchosen {} {} := .refl
  have hmade := hstart.andThen (.instantiate host { name := "host", registers := true })
    ⟨hfree, rfl⟩
  have honce := hmade.andThen (.editItem ⟨1⟩ (.append (.text "blue")) trivial) trivial
  exact honce.andThen (.editItem ⟨1⟩ (.append (.text "blue")) trivial) trivial

/-- Both occurrences of the tag are registered at the same path. -/
theorem registry_mirrors_tagged :
    (tagged.registry.targetsAt "/tag/blue").countP (·.same (.member ⟨1⟩ (.text "blue"))) = 2 ∧
      (tagged.registrations.countP fun r =>
        r.1 == "/tag/blue" && r.2.same (.member ⟨1⟩ (.text "blue"))) = 2 := by
  have hcount := (registry_mirrors_tree reaches_tagged).2 "/tag/blue" (.member ⟨1⟩ (.text "blue"))
  have htwo : (tagged.registry.targetsAt "/tag/blue").countP
      (·.same (.member ⟨1⟩ (.text "blue"))) = 2 := by decide +kernel
  exact ⟨htwo, hcount.symm.trans htwo⟩

end Tree

end DataTree
