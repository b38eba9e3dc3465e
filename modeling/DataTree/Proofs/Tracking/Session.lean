import DataTree.Proofs.Tracking.Reading

/-!
# DataTree.Proofs.Tracking.Session

Change tracking, whatever is done with a tree that is made from schemas
(`changes_tracked_of_reaches`).

What is above a marked element is marked, no mark is ever lost, and filtered snapshots
leave out what is not marked, and nothing else.  Subtrees may be made anywhere, below
any element and in the place of another one; but no reference may be the type of a key
leaf, since a key that is refused then leaves the marks of the elements that it was
written through to.
-/

namespace DataTree

open Edit

namespace Tree

variable {t t' : Tree} {op : Operation} {x q : ElementId}

/-- Everything but making single elements; schemas have no references in key leaves. -/
def Declaring (_ : Tree) : Operation → Prop
  | .wrap _ _ _ => False
  | .instantiate schema _ => schema.root.PlainKeyed
  | _ => True

/-- Every declared operation keeps links and marks in order, and takes no mark away, whether it
succeeds or fails. -/
theorem tended_after (h : t.Tended) (hop : t.Declaring op) :
    (op.after t).Tended ∧ Touches Set.univ Set.univ t (op.after t) := by
  have hlinked := frameStable_linked.assignStable
  cases op with
  | wrap content spec => exact hop.elim
  | instantiate schema spec =>
    have hbuild : Leads (Keeping fun t' => t'.Tended ∧ Touches Set.univ Set.univ t t')
        (build schema spec) := by
      intro t₁ h₁
      obtain ⟨hl, ht⟩ := tracked_build (Schema.PlainKeyed.uses hop) t₁ ⟨h₁.1.linked, h₁.1.tracked⟩
      exact ⟨⟨hl, ht⟩, trans_of (Touches _ _) h₁.2 (touches_build schema spec t₁)⟩
    exact leads_instantiate (fun event h₁ => ⟨h₁.1.tell event, h₁.2.of_slots rfl⟩) hbuild t
      ⟨h, refl_of (Touches _ _) t⟩
  | set id active =>
    exact ⟨⟨hlinked.set id active t h.linked, tracked_set id active t h.tracked⟩,
      touches_set id active t⟩
  | setLeaf id raw =>
    exact ⟨⟨hlinked.setLeaf id raw t h.linked, tracked_setLeaf id raw t h.tracked⟩,
      touches_setLeaf id raw t⟩
  | editItem id edit =>
    exact ⟨⟨frameStable_linked.editItem id edit t h.linked, tracked_editItem id edit t h.tracked⟩,
      touches_editItem id edit t⟩
  | extend id raws =>
    exact ⟨⟨frameStable_linked.extend id raws t h.linked, tracked_extend id raws t h.tracked⟩,
      touches_extend id raws t⟩
  | unset id =>
    exact ⟨⟨linked_runUnset (.contents id) t h.linked, tracked_unset id t h.tracked⟩,
      touches_runUnset (.contents id) t⟩
  | removeSubtree id => exact ⟨tended_removeSubtree id t h, touches_removeSubtree id t⟩
  | add id key => exact tended_add id key t h
  | delete id key => exact tended_delete id key t h

theorem tended_of_reaches (h : Reaches Declaring {} t) : t.Tended :=
  h.keeps (fun _ _ ht hop => (tended_after ht hop).1) tended_empty

/-- `q` is on the way up from `x`, over elements that are there. -/
def Ascends (t : Tree) : ElementId → ElementId → Prop :=
  Relation.TransGen fun x q => ∃ e, t.element? x = some e ∧ e.parent = some q

theorem Tended.isMarked_of_ascends (h : t.Tended) (hx : t.isMarked x = true) (ha : t.Ascends x q)
    (hq : (t.element? q).isSome) : t.isMarked q = true := by
  have hstep : ∀ {x q e}, t.isMarked x = true → t.element? x = some e → e.parent = some q →
      (t.element? q).isSome → t.isMarked q = true := by
    intro x q e hx he hpar hq
    obtain ⟨qe, hqe⟩ := Option.isSome_iff_exists.1 hq
    rw [isMarked_eq he] at hx
    rw [isMarked_eq hqe]
    exact (h.tracked.above he hx hpar hqe).resolve_right (by simp)
  induction ha with
  | single hup =>
    obtain ⟨e, he, hpar⟩ := hup
    exact hstep hx he hpar hq
  | tail _ hup ih =>
    obtain ⟨e, he, hpar⟩ := hup
    exact hstep (ih (by rw [he]; rfl)) he hpar hq

/-- **Change tracking**: in every tree that declared operations lead to, whatever is above a marked
element is marked, and no declared operation takes a mark away from an element that stays.  The
filtered snapshot of an element is its full snapshot without the children of containers that are
not marked; and what is marked, and has nothing below it, is read in there at its place. -/
theorem changes_tracked_of_reaches (h : Reaches Declaring {} t) :
    (∀ {x q}, t.isMarked x = true → t.Ascends x q → (t.element? q).isSome → t.isMarked q = true) ∧
      (∀ {op x}, t.Declaring op → t.isMarked x = true → ((op.after t).element? x).isSome →
        (op.after t).isMarked x = true) ∧
      ∀ id, t.snapshot true id = (t.snapshot false id).map (t.prune id) ∧
        ∀ {v path x e}, t.snapshot true id = .ok v → t.locate id path = some x →
          t.element? x = some e → e.changed = true → e.content.branches = false →
          ∃ w, t.value x = .ok w ∧ v.at? path = some w := by
  have ht := tended_of_reaches h
  refine ⟨fun hx ha hq => ht.isMarked_of_ascends hx ha hq, fun {op x} hop hx hlive => ?_,
    fun id => ⟨ht.snapshot_true id, ht.value_of_locate⟩⟩
  obtain ⟨e', he'⟩ := Option.isSome_iff_exists.1 hlive
  obtain ⟨e, he, hc⟩ : ∃ e, t.element? x = some e ∧ e.changed = true := by
    cases he : t.element? x with
    | none => simp [isMarked, he] at hx
    | some e => exact ⟨e, rfl, (isMarked_eq he).symm.trans hx⟩
  obtain ⟨e₁, he₁, -, hkeep, -⟩ := (tended_after ht hop).2.element (index_lt_of_element? he) he'
  obtain rfl : e = e₁ := Option.some.inj (he.symm.trans he₁)
  rw [isMarked_eq he']
  exact hkeep hc

/-! ## A session -/

/-- A device with ports, by name and speed. -/
def device : Blueprint :=
  .container
    [⟨"note", none, .leaf .string⟩,
      ⟨"port", none, .list ⟨⟨["name", "speed"]⟩,
        [⟨"name", none, .leaf .string⟩, ⟨"speed", none, .leaf (.uint {})⟩], false⟩⟩]

def installed : Tree := (Operation.instantiate device { name := "device" }).after {}

/-- A port whose speed is no number is refused. -/
def refused : Tree := (Operation.add ⟨2⟩ (some "eth1 fast")).after installed

def connected : Tree := (Operation.add ⟨2⟩ (some "eth0 10")).after refused

theorem plainKeyed_device : device.root.PlainKeyed := by
  have hplain : ListSchema.PlainKeys ⟨⟨["name", "speed"]⟩,
      [⟨"name", none, .leaf .string .empty⟩, ⟨"speed", none, .leaf (.uint {}) .empty⟩], false⟩ := by
    intro field _ type htype
    obtain ⟨case, default, hm⟩ := htype
    simp only [List.mem_cons, Child.mk.injEq, Schema.leaf.injEq, List.not_mem_nil, or_false] at hm
    obtain ⟨-, -, rfl, -⟩ | ⟨-, -, rfl, -⟩ := hm <;> rfl
  simp [device, Blueprint.declared, declareAll, declare, Schema.PlainKeyed,
    Schema.AllPlainKeyed, hplain]

theorem reaches_connected : Reaches Declaring {} connected := by
  have hstart : Reaches Declaring {} installed :=
    Reaches.andThen .refl (.instantiate device { name := "device" }) plainKeyed_device
  have hrefused := hstart.andThen (.add ⟨2⟩ (some "eth1 fast")) trivial
  exact hrefused.andThen (.add ⟨2⟩ (some "eth0 10")) trivial

/-- The port that was refused has left no mark; the other one is read in the filtered snapshot, and
keeps its marks when its speed is unset. -/
theorem changes_tracked_connected :
    refused.ids.filter refused.isMarked = [] ∧
      connected.ids.filter connected.isMarked = [⟨0⟩, ⟨2⟩, ⟨6⟩, ⟨7⟩, ⟨8⟩] ∧
      ((Operation.unset ⟨8⟩).after connected).isMarked ⟨8⟩ = true ∧
      connected.snapshot true ⟨0⟩ = (connected.snapshot false ⟨0⟩).map (connected.prune ⟨0⟩) ∧
      ∃ v w, connected.snapshot true ⟨0⟩ = .ok v ∧ connected.value ⟨8⟩ = .ok w ∧
        v.at? ["port", "eth0 10", "speed"] = some w := by
  obtain ⟨-, hkeeps, hfilter⟩ := changes_tracked_of_reaches reaches_connected
  have hread : ∃ v, connected.snapshot true ⟨0⟩ = .ok v := by
    have hok : (connected.snapshot true ⟨0⟩).toOption.isSome = true := by decide +kernel
    cases hsnapshot : connected.snapshot true ⟨0⟩ with
    | error err => simp [hsnapshot, Except.toOption] at hok
    | ok v => exact ⟨v, rfl⟩
  obtain ⟨v, hv⟩ := hread
  have hspeed : (connected.element? ⟨8⟩).any
      (fun e => e.changed && !e.content.branches) = true := by
    decide +kernel
  obtain ⟨e, he, hspeed⟩ := (Option.any_eq_true _ _).1 hspeed
  rw [Bool.and_eq_true, Bool.not_eq_true'] at hspeed
  have hplace : connected.locate ⟨0⟩ ["port", "eth0 10", "speed"] = some ⟨8⟩ := by decide +kernel
  obtain ⟨w, hw, hat⟩ := (hfilter ⟨0⟩).2 hv hplace he hspeed.1 hspeed.2
  have hunset : connected.Declaring (.unset ⟨8⟩) := trivial
  exact ⟨by decide +kernel, by decide +kernel,
    hkeeps hunset (by decide +kernel) (by decide +kernel), (hfilter ⟨0⟩).1, v, w, hv, hw, hat⟩

end Tree

end DataTree
