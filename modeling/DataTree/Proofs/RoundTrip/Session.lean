import DataTree.Proofs.RoundTrip.Accepted

/-!
# DataTree.Proofs.RoundTrip.Session

Adding an entry and deleting it again.

In a session without choices, an entry can be added to a list whose key leaves have no
references, anything can be done within the entry that follows no reference, and after the
entry has been deleted the registry and the list are what they were, there are as many
elements as before, and the entry can be added again (`add_delete_round_trip`).
-/

namespace DataTree

open Edit

namespace Tree

variable {t t' : Tree} {id entry : ElementId} {l : KeyedList} {key : String} {n : Nat}

/-! ## Settled trees -/

theorem settled_empty : Settled {} := ⟨sound_empty, mirrored_empty, accounts_empty⟩

theorem settled_of_reaches (h : Reaches (fun t op => t.Regular op ∧ t.Unchosen op) {} t) :
    t.Settled :=
  h.keeps (fun _ _ hs hop => hs.after hop.1 hop.2) settled_empty

/-- Who is registered is there. -/
theorem Mirrored.isSome_owner (h : Mirrored t) {path : String} {x : Target}
    (hx : x ∈ t.registry.targetsAt path) : (t.element? x.owner).isSome := by
  have hpos : 0 < t.registry.count path x :=
    List.countP_pos_iff.2 ⟨x, hx, Target.same_refl (h.lists.proper hx)⟩
  rw [h.lists.counted] at hpos
  obtain ⟨r, hr, hhits⟩ := List.countP_pos_iff.1 hpos
  obtain ⟨y, e, he, hmem⟩ := mem_registrations.1 hr
  have howner : r.2.owner = e.id := by
    obtain rfl | hitem := List.mem_cons.1 hmem
    · rfl
    · obtain ⟨v, -, rfl⟩ := List.mem_map.1 hitem
      rfl
  have hsame : r.2.same x = true := (Bool.and_eq_true_iff.1 hhits).2
  rw [← Target.owner_eq_of_same hsame, howner, (h.plain he).id_eq, he]
  rfl

/-- Without elements from slot `n` on, all of the registry is about older ones. -/
theorem Settled.before_registry (h : t.Settled)
    (hnone : ∀ {x : ElementId}, n ≤ x.index → t.element? x = none) :
    t.registry.before n = t.registry := by
  refine h.accounts.tidy.before_eq_self fun path x hx => ?_
  by_contra hlate
  have hlive := h.mirrored.isSome_owner hx
  rw [hnone (Nat.not_lt.1 hlate)] at hlive
  cases hlive

/-- Trees that are alike up to slot `n`, without elements from there on, have equally many. -/
theorem Settled.live_eq (h : t.Settled) (h' : t'.Settled) (halike : Alike n t t')
    (hnone : ∀ {x : ElementId}, n ≤ x.index → t.element? x = none)
    (hnone' : ∀ {x : ElementId}, n ≤ x.index → t'.element? x = none) : t'.live = t.live := by
  rw [h'.sound.live, h.sound.live]
  refine length_ids_congr fun x => ?_
  obtain hold | hlate := Nat.lt_or_ge x.index n
  · have hmap := congrArg Option.isSome (halike hold)
    rwa [Option.isSome_map, Option.isSome_map] at hmap
  · rw [hnone hlate, hnone' hlate]

/-! ## The round trip -/

theorem keyedList_eq_ok_iff : t.keyedList id = .ok l ↔ t.held id = some (.list l) := by
  rw [keyedList, listFor_eq_ok_iff, held_eq_some_iff]

/-- The entry of the list that was put into it last. -/
theorem entry_insert (h : t.held id = some (.list (l.insert key entry))) :
    t.entry id key = .ok entry := by
  have hget : (l.insert key entry).get? key = some entry := Assoc.get?_insert_self _ _ _
  rw [Tree.entry, listFor_eq_ok_iff.2 (held_eq_some_iff.1 h)]
  simp only [bind, Except.bind, hget]
  rfl

/-- **Adding and deleting is a round trip**: whatever is done within an entry that has been added to
a list, without following references, once the entry is deleted the registry is what it was, with
the same paths and targets in the same order, and so is the list; there are as many elements as
before, and the entry can be added again. -/
theorem add_delete_round_trip (h : Reaches (fun t op => t.Regular op ∧ t.Unchosen op) {} t)
    (hl : t.keyedList id = .ok l) (hkeyed : l.schema.key.isKeyless = false)
    (hplain : l.schema.PlainKeys) {key' : String} {t₁ : Tree}
    (hadd : (add id (some key)).on t = (.ok key', t₁)) :
    ∃ entry, t₁.entry id key = .ok entry ∧ ∀ t₂, Reaches (Inside entry) t₁ t₂ →
      ∃ t₃ t₄, (delete id key).on t₂ = (.ok (), t₃) ∧ t₃.registry = t.registry ∧
        t₃.keyedList id = .ok l ∧ t₃.live = t.live ∧ (add id (some key)).on t₃ = (.ok key, t₄) := by
  have hsettled := settled_of_reaches h
  have hheld := keyedList_eq_ok_iff.1 hl
  obtain ⟨e, he, hlist⟩ := held_eq_some_iff.1 hheld
  obtain ⟨rfl, hnew, entry, hhosts⟩ := hosts_of_add hsettled he hlist hkeyed hplain hadd
  refine ⟨entry, entry_insert hhosts.held, fun t₂ hinner => ?_⟩
  have hhosts₂ := hhosts.reaches hinner
  obtain ⟨⟨⟩, t₃, hdelete, hback, hgone⟩ := (hhosts₂.ensures_delete hnew).exists_ok
  have hsettled₃ : t₃.Settled := by
    have hregular : t₂.Regular (.delete id key') := trivial
    have hafter : (Operation.delete id key').after t₂ = t₃ := congrArg Prod.snd hdelete
    exact hafter ▸ hhosts₂.nest.toSettled.after hregular trivial
  have hheld₃ : t₃.held id = some (.list l) := (hback.alike.held hhosts.lt).trans hheld
  have hregistry : t₃.registry = t.registry := by
    rw [← hsettled₃.before_registry (hgone _), hback.registry,
      hsettled.before_registry hhosts.fresh]
  have hlive : t₃.live = t.live := hsettled.live_eq hsettled₃ hback.alike hhosts.fresh (hgone _)
  -- What a list takes is up to the list and its path, and both are what they were.
  obtain ⟨e₃, he₃, hun⟩ := hback.alike.element hhosts.lt he
  have hlist₃ : e₃.content = .list l := (congrArg Element.content hun :).trans hlist
  have hpath : e.path = e₃.path := (congrArg Element.path hun.symm :)
  have haccepts := (add_succeeds_iff hsettled he hlist hkeyed hplain).1 ⟨_, _, hadd⟩
  obtain ⟨key'', t₄, hagain⟩ :=
    (add_succeeds_iff hsettled₃ he₃ hlist₃ hkeyed hplain).2 (hpath ▸ haccepts)
  obtain ⟨rfl, -⟩ := hosts_of_add hsettled₃ he₃ hlist₃ hkeyed hplain hagain
  exact ⟨t₃, t₄, hdelete, hregistry, keyedList_eq_ok_iff.2 hheld₃, hlive, hagain⟩

/-! ## A session -/

/-- Ports by name, each with tags and units. -/
def switch : Blueprint :=
  .container [⟨"port", none, .list ⟨⟨["name"]⟩,
    [⟨"name", none, .leaf (.text {})⟩, ⟨"tag", none, .leafList ⟨[.text {}]⟩⟩,
      ⟨"unit", none, .list ⟨⟨["id"]⟩, [⟨"id", none, .leaf (.text {})⟩], false⟩⟩], false⟩⟩]

/-- A switch with one port, and then with a second one. -/
def switched : Tree :=
  let made := (Operation.instantiate switch { name := "switch", registers := true }).after {}
  (Operation.add ⟨1⟩ (some "eth0")).after made

def extended : Tree := (Operation.add ⟨1⟩ (some "eth1")).after switched

/-- The second port has got a tag and a unit. -/
def furnished : Tree :=
  let labelled := (Operation.editItem ⟨8⟩ (.append (.text "uplink")) trivial).after extended
  (Operation.add ⟨9⟩ (some "0")).after labelled

theorem reaches_switched : Reaches (fun t op => t.Regular op ∧ t.Unchosen op) {} switched := by
  have hfree : switch.root.ChoiceFree := by
    simp [switch, Blueprint.declared, declareAll, declare, Schema.ChoiceFree, Schema.AllChoiceFree]
  have hstart : Reaches (fun t op => t.Regular op ∧ t.Unchosen op) {} {} := .refl
  have hmade := hstart.andThen (.instantiate switch { name := "switch", registers := true })
    ⟨.inl rfl, hfree, rfl⟩
  exact hmade.andThen (.add ⟨1⟩ (some "eth0")) ⟨trivial, trivial⟩

/-- What an element lists is under it. -/
theorem under_of_listed {p c : ElementId} (h : (t.element? p).any (fun e => c ∈ e.below) = true) :
    t.Under p c := by
  obtain ⟨e, he, hc⟩ := (Option.any_eq_true _ _).1 h
  exact .single ⟨e, he, of_decide_eq_true hc⟩

theorem reaches_furnished : Reaches (Inside ⟨6⟩) extended furnished := by
  have hstart : Reaches (Inside ⟨6⟩) extended extended := .refl
  have hlabelled := hstart.andThen (.editItem ⟨8⟩ (.append (.text "uplink")) trivial)
    (under_of_listed (by decide +kernel))
  refine hlabelled.andThen (.add ⟨9⟩ (some "0"))
    ⟨under_of_listed (by decide +kernel), fun {e l} he hl => ?_⟩
  refine ListSchema.plainKeys_of_leaves ?_
  have hall :
      (((Operation.editItem ⟨8⟩ (.append (.text "uplink")) trivial).after extended).keyedList
      ⟨9⟩).toOption.all (·.schema.hasPlainLeaves) = true := by decide +kernel
  rwa [keyedList, listFor_eq_ok_iff.2 ⟨e, he, hl⟩] at hall

/-- Without the second port the registry is what it was, with as many elements, and the port can
come again. -/
theorem add_delete_round_trip_furnished :
    ∃ l t₃ t₄, (delete ⟨1⟩ "eth1").on furnished = (.ok (), t₃) ∧
    t₃.registry = switched.registry ∧ switched.keyedList ⟨1⟩ = .ok l ∧ t₃.keyedList ⟨1⟩ = .ok l ∧
      t₃.live = switched.live ∧ (add ⟨1⟩ (some "eth1")).on t₃ = (.ok "eth1", t₄) := by
  have hlist : (switched.keyedList ⟨1⟩).toOption.any
      (fun l => !l.schema.key.isKeyless && l.schema.hasPlainLeaves) = true := by decide +kernel
  have hadded : ((add ⟨1⟩ (some "eth1")).on switched).1.toOption = some "eth1" := by decide +kernel
  have hentry : (extended.entry ⟨1⟩ "eth1").toOption = some ⟨6⟩ := by decide +kernel
  cases hl : switched.keyedList ⟨1⟩ with
  | error err =>
    rw [hl] at hlist
    cases hlist
  | ok l =>
    rw [hl] at hlist
    obtain ⟨hkeyed, hplain⟩ := Bool.and_eq_true_iff.1 hlist
    cases hadd : (add ⟨1⟩ (some "eth1")).on switched with
    | mk r t₁ =>
      obtain rfl : extended = t₁ := congrArg Prod.snd hadd
      cases r with
      | error err =>
        rw [hadd] at hadded
        cases hadded
      | ok key' =>
        obtain ⟨entry, hread, htrip⟩ :=
          add_delete_round_trip reaches_switched hl (by simpa using hkeyed)
          (ListSchema.plainKeys_of_leaves hplain) hadd
        obtain rfl : entry = ⟨6⟩ := by
          rw [hread] at hentry
          exact Option.some.inj hentry
        obtain ⟨t₃, t₄, hdelete, hregistry, hback, hlive, hagain⟩ :=
          htrip furnished reaches_furnished
        exact ⟨l, t₃, t₄, hdelete, hregistry, rfl, hback, hlive, hagain⟩

end Tree

end DataTree
