import DataTree.Proofs.Traffic.Operations

/-!
# DataTree.Proofs.Traffic.Session

The events of a session balance.

In a session without choices whose elements are all registered, every unregistration drops
something that is registered at that moment, and so at every path the registrations are as
many as the unregistrations and the targets that are left (`traffic_of_session`).  Items
that an element is wrapped with are an exception: nobody registers these, but whoever takes
them out again unregisters them (`not_balanced_prefilled`).  The same goes for a supplied base
that gives back what it was not given.
-/

namespace DataTree

open Edit

namespace Tree

variable {t : Tree} {owners : List ElementId}

/-- Callers who register every element and have no choices.  Elements that are wrapped with
items in them, or with a base that gives back what it was not given, are owners. -/
def Registered (owners : List ElementId) (t : Tree) : Operation → Prop
  | .wrap content spec _ => spec.registers = true ∧
      (∀ l, content = .list l → Schema.AllChoiceFree l.schema.entry) ∧
      (⟨t.slots.size⟩ ∉ owners → content.items = [] ∧ content.HoldsAtMost)
  | .instantiate schema spec => schema.root.ChoiceFree ∧ spec.registers = true
  | _ => True

/-- Notes that do not tell of the registry do not matter. -/
theorem Covered.tell (h : Covered owners owners t) (event : Event) (hev : event.isTraffic = false) :
    Covered owners owners (t.tell event) :=
  { toTold := h.toTold.tell hev
    orderly := h.orderly
    standing := h.standing
    stocked := h.stocked }

/-- **Every operation keeps enough registrations to drop.** -/
theorem covered_after {op : Operation} (h : Covered owners owners t)
    (hop : t.Registered owners op) :
    Covered owners owners (op.after t) := by
  have hentry : EntryKeeping (Covered owners owners) fun _ => False := entryKeeping_covered
  cases op with
  | wrap content spec fresh =>
    obtain ⟨hr, hfree, hitems⟩ := hop
    exact covered_wrap h fresh.proper hfree hr hitems
  | instantiate schema spec =>
    exact leads_instantiate_of_notes (fun event hev ht => ht.tell event hev)
      (buildStable_covered.build schema spec (uses_of_choiceFree hop.1) hop.2) t h
  | set id active => exact hentry.set id active t h
  | setLeaf id raw => exact hentry.setLeaf id raw t h
  | editItem id edit proper => exact covered_editItem id proper t h
  | extend id raws proper => exact covered_extend id proper t h
  | unset id => exact covered_unset id t h
  | removeSubtree id => exact covered_removeSubtree id t h
  | add id key => exact hentry.add (fun event hev ht => ht.tell event hev) id key t h
  | delete id key => exact hentry.delete (fun event hev ht => ht.tell event hev) id key t h

theorem covered_of_reaches (h : Reaches (Registered owners) {} t) : Covered owners owners t :=
  h.keeps (fun _ _ => covered_after) covered_empty

/-- **The events of a session balance.**  They tell of the registry; whatever is unregistered is
registered at that moment, but for items of owners, which were wrapped with items; and at any
moment there have been as many registrations at a path as there have been unregistrations and there
are targets left, unless such an item was unregistered there. -/
theorem traffic_of_session (h : Reaches (Registered owners) {} t) :
    t.registry = Event.replay t.events ∧
      (∀ before path target after, t.events = before ++ .unregistered path target :: after →
        Excused owners target ∨ ∃ x ∈ (Event.replay before).targetsAt path, x.same target = true) ∧
      ∀ before path, before <+: t.events →
        (∀ target, .unregistered path target ∈ before → ¬ Excused owners target) →
        (Event.traffic before path).1
          = (Event.traffic before path).2 + ((Event.replay before).targetsAt path).length := by
  have hcovered := covered_of_reaches h
  exact ⟨hcovered.replayed, hcovered.matched, fun before path hp hfree =>
    Event.fst_traffic_eq (hcovered.matched.of_prefix hp) hfree⟩

/-- Tags, wrapped with items in them. -/
def wrapTags (items : List Value) (hitems : ∀ v ∈ items, v.Proper) : Operation :=
  .wrap (.leafList { type := ⟨[.string]⟩, items }) { name := "tags", registers := true }
    ⟨hitems, rfl, fun h => by cases h⟩

/-- Tags one of which was put in twice and taken out once. -/
def doubledTags : Tree :=
  let made := (wrapTags [] (by simp)).after {}
  let one := (Operation.editItem ⟨0⟩ (.append (.text "a")) trivial).after made
  let two := (Operation.editItem ⟨0⟩ (.append (.text "a")) trivial).after one
  (Operation.editItem ⟨0⟩ (.pop (some 0)) trivial).after two

theorem registered_wrapTags {items : List Value} {hitems : ∀ v ∈ items, v.Proper}
    (howner : ⟨t.slots.size⟩ ∉ owners → items = []) : t.Registered owners (wrapTags items hitems) :=
  ⟨rfl, fun _ hl => (by cases hl), fun hno => ⟨howner hno, Content.tallies_of_leafList rfl⟩⟩

theorem reaches_doubledTags : Reaches (Registered []) {} doubledTags := by
  have hstart : Reaches (Registered []) {} {} := .refl
  have hmade := hstart.andThen (wrapTags [] (by simp)) (registered_wrapTags fun _ => rfl)
  have hone := hmade.andThen (.editItem ⟨0⟩ (.append (.text "a")) trivial) trivial
  have htwo := hone.andThen (.editItem ⟨0⟩ (.append (.text "a")) trivial) trivial
  exact htwo.andThen (.editItem ⟨0⟩ (.pop (some 0)) trivial) trivial

/-- Two registrations, one unregistration, and one tag that is left. -/
theorem traffic_doubledTags : Event.traffic doubledTags.events "/a" = (2, 1) ∧
    (Event.traffic doubledTags.events "/a").1
      = (Event.traffic doubledTags.events "/a").2 +
        (doubledTags.registry.targetsAt "/a").length := by
  obtain ⟨hreplay, -, hbalance⟩ := traffic_of_session reaches_doubledTags
  refine ⟨by decide +kernel, ?_⟩
  rw [hreplay]
  exact hbalance _ "/a" (List.prefix_refl _) fun target _ => by cases target <;> simp [Excused]

/-- Tags that were wrapped with one in them, which was taken out. -/
def prefilled : Tree :=
  (Operation.editItem ⟨0⟩ (.pop (some 0)) trivial).after
    ((wrapTags [.text "a"] (by simp [Value.Proper])).after {})

/-- An item that was wrapped is unregistered without ever having been registered. -/
theorem not_balanced_prefilled : ¬ ∀ owners t path, Reaches (Registered owners) {} t →
    (Event.traffic t.events path).1
      = (Event.traffic t.events path).2 + (t.registry.targetsAt path).length := by
  intro hall
  have hstart : Reaches (Registered [⟨0⟩]) {} {} := .refl
  have hmade := hstart.andThen (wrapTags [.text "a"] (by simp [Value.Proper]))
    (registered_wrapTags fun hno => absurd List.mem_cons_self hno)
  have hfull := hmade.andThen (.editItem ⟨0⟩ (.pop (some 0)) trivial) trivial
  have hbalance := hall [⟨0⟩] prefilled "/a" hfull
  revert hbalance
  decide +kernel

end Tree

end DataTree
