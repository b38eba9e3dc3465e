import DataTree.Proofs.Keys.Session
import DataTree.Proofs.Rollback.Key

/-!
# DataTree.Proofs.Rollback.Session

What a failed add leaves behind.

All that can be left is data that the early parts of the key cost, and the marks that came
with it: once data and marks are as they were, so is everything, with the registry
(`Grounded.unscathed_of_add`).  If no key leaf is a reference, the marks follow the data, so an
add that fails leaves no trace exactly if all data is still there, and if the key can cost
none then it is (`add_traceless`).
-/

namespace DataTree.Tree

open Edit Outcome

variable {t t' : Tree} {id x : ElementId} {schema : Blueprint} {spec : ElementSpec} {safe : Prop}

/-! ## Adding -/

/-- Events do not matter to plans. -/
theorem planFrom_tell (t : Tree) (event : Event) (fuel : Nat) (x : ElementId)
    (active : Option Case) :
    (t.tell event).planFrom fuel x active = t.planFrom fuel x active := by
  induction fuel generalizing x active with
  | zero => rfl
  | succ fuel ih =>
    simp only [planFrom, ih]
    rfl

theorem plan_tell (t : Tree) (event : Event) (x : ElementId) (active : Option Case) :
    (t.tell event).plan x active = t.plan x active := planFrom_tell t event _ x active

theorem stale_tell (t : Tree) (event : Event) (x : ElementId) :
    (t.tell event).Stale x ↔ t.Stale x := by
  simp only [Stale, plan_tell]
  rfl

theorem costs_tell (t : Tree) (event : Event) (x : ElementId) (active : Option Case) :
    (t.tell event).Costs x active ↔ t.Costs x active := by
  simp only [Costs, plan_tell]
  rfl

theorem addingCosts_tell (t : Tree) (event : Event) (x : ElementId) (s : ListSchema Schema) :
    (t.tell event).AddingCosts x s ↔ t.AddingCosts x s := by
  simp only [AddingCosts, costs_tell]

/-- What every tree is that a schema describes: sound, with hooks that clear what was declared, and
a registry in order. -/
structure Grounded (t : Tree) : Prop where
  sound : Sound t ∅
  declared : t.Declared
  hooked : t.Hooked
  accounts : t.Accounts t.slots.size

theorem grounded_of_evolves (hroot : spec.parent = none) (h : Evolves schema spec t) :
    t.Grounded := by
  obtain ⟨hs, node, hf⟩ := schematic_of_evolves hroot h
  refine ⟨hs, hf.declared, hooked_of_evolves h, ?_⟩
  exact h.keeps (I := fun t => t.Accounts t.slots.size) (fun _ op ha _ => accounts_after op ha)
    (accounts_after _ (Accounts.of_size accounts_empty))

namespace Grounded

/-- Events do not matter. -/
theorem tell (h : t.Grounded) (event : Event) : (t.tell event).Grounded where
  sound := h.sound.sameFrame (sameFrame_tell t event)
  declared := h.declared
  hooked := h.hooked
  accounts := h.accounts.of_slots rfl rfl

/-- If a failed add leaves data and marks, it leaves everything. -/
theorem unscathed_of_add (h : t.Grounded) (hfresh : ¬ t.Stale id) (key : Option String) :
    (add id key).Ensures t (fun _ _ => True) fun _ t' => t.Conserves id t' → t.Unscathed t' := by
  refine ensures_add (fun _ _ _ => ⟨fun _ => rfl, rfl⟩) fun {e _} _ _ => ?_
  let event : Event := .adding e.path
  obtain ⟨hs, hd, -, hacc⟩ := h.tell event
  have hfails : (addEntry id key).Ensures (t.tell event) (fun _ _ => True)
      fun _ => (t.tell event).Fails (fun _ => True) id :=
    ensures_fails hs hd hacc key fun _ _ => ensures_true _ _
  refine hfails.mono (fun _ _ _ => trivial) fun _ t' hf hc => ?_
  obtain ⟨hel, hreg⟩ :=
    hf.unscathed hs hacc (hfresh ∘ (stale_tell t event id).1) ⟨hc.held, hc.marked⟩
  exact ⟨hel, hreg⟩

/-- If no key leaf is a reference, a failed add leaves data and marks if all data is still there, or
if adding costs none. -/
theorem conserves_of_add (h : t.Grounded) (hfresh : ¬ t.Stale id) (key : Option String)
    (hplain : ∀ l, t.held id = some (.list l) → l.schema.PlainKeys) :
    (add id key).Ensures t (fun _ _ => True) fun _ t' =>
      (∀ l, t.held id = some (.list l) → ¬ t.AddingCosts id l.schema) ∨
      t.Lossless t' → t.Conserves id t' := by
  refine ensures_add (fun _ _ _ => ⟨fun _ => rfl, fun _ _ => rfl⟩) fun {e _} _ _ => ?_
  let event : Event := .adding e.path
  obtain ⟨hs, hd, hh, hacc⟩ := h.tell event
  let safe : Prop := ∀ l, t.held id = some (.list l) → ¬ (t.tell event).AddingCosts id l.schema
  let assigned :=
    fun t' => Sheds (t.tell event).slots.size safe (t.tell event) t' ∧ (t.tell event).MarksUp id t'
  have hfails : (addEntry id key).Ensures (t.tell event) (fun _ _ => True)
      fun _ => (t.tell event).Fails assigned id := by
    refine ensures_fails hs hd hacc key fun {e l path entry before t₁} parts hbegun => ?_
    have hheld : t.held id = some (.list l) := held_eq_some_iff.2 ⟨e, hbegun.owner, hbegun.list⟩
    have hfields : ∀ q ∈ l.schema.key.fields.zip parts, q.1 ∈ l.schema.key.fields :=
      fun _ hq => (List.of_mem_zip hq).1
    have hsheds :=
      hbegun.sheds_assignKey hs hh (hplain l hheld) (fun (hyes : safe) => hyes l hheld) hfields
      hbegun.entering.sound hbegun.declared (refl_of Retains t₁) (refl_of Shrinks t₁)
        hbegun.alike.sheds
    exact hsheds.and (hbegun.marked_assignKey (hplain l hheld) hfields)
  refine hfails.mono (fun _ _ _ => trivial) fun _ t' hf hcase => ?_
  have hcost : (∀ l, t.held id = some (.list l) → ¬ t.AddingCosts id l.schema) → safe :=
    fun hfree l hl => hfree l hl ∘ (addingCosts_tell t event id l.schema).1
  obtain ⟨hheld, hmarked⟩ := hf.conserves hs (hfresh ∘ (stale_tell t event id).1) (fun hyes => hyes)
    (hcase.imp hcost fun hless => ⟨hless.isSome, hless.laden⟩)
  exact ⟨hheld, hmarked⟩

end Grounded

/-- **A failed add leaves no trace if it costs no data**: take any tree that a schema describes,
whatever was done with it, and a list whose plan is not stale; it is stale only after parts of the
tree were removed by themselves.  If adding an entry fails, then elements, marks and registry are
what they were exactly if all elements hold what they held, and no mark is new but for those from
the list up.  Where no key leaf is a reference, this is so exactly if what had data still has it,
and that is certain where nothing that has data must make way for the list or for one of its key
leaves. -/
theorem add_traceless (hroot : spec.parent = none) (h : Evolves schema spec t)
    {key : Option String} {err : Error} (hfail : (add id key).on t = (.error err, t')) :
    (Grows schema spec t → ¬ t.Stale id) ∧
      (¬ t.Stale id → (t.Unscathed t' ↔ t.Conserves id t') ∧
        ((∀ l, t.held id = some (.list l) → l.schema.PlainKeys) → (t.Unscathed t' ↔ t.Lossless t') ∧
          ((∀ l, t.held id = some (.list l) → ¬ t.AddingCosts id l.schema) → t.Unscathed t'))) := by
  have hground := grounded_of_evolves hroot h
  refine ⟨fun hgrows => not_stale_of_grows hroot hgrows id, fun hfresh => ?_⟩
  have hall := (hground.unscathed_of_add hfresh key).of_error hfail
  refine ⟨⟨fun hun => hun.conserves id, hall⟩, fun hplain => ?_⟩
  have hdata := (hground.conserves_of_add hfresh key hplain).of_error hfail
  exact ⟨⟨Unscathed.lossless, fun hless => hall (hdata (.inr hless))⟩,
    fun hfree => hall (hdata (.inl hfree))⟩

/-! ## A session -/

/-- A label, or ports by name and number in its place. -/
def labelled : Blueprint :=
  .container [⟨"label", some ⟨"kind", "named"⟩, .leaf .string⟩,
    ⟨"port", some ⟨"kind", "listed"⟩, .list ⟨⟨["name", "index"]⟩,
      [⟨"name", none, .leaf .string⟩, ⟨"index", none, .leaf .uint8⟩], false⟩⟩]

/-- There is a port, or a label. -/
def stacked : Tree :=
  (Operation.add ⟨2⟩ (some "eth0 1")).after
    ((Operation.instantiate labelled { name := "root" }).after {})

def titled : Tree :=
  (Operation.setLeaf ⟨1⟩ (.text "kept")).after
    ((Operation.instantiate labelled { name := "root" }).after {})

theorem grows_stacked : Grows labelled { name := "root" } stacked :=
  Reaches.andThen .refl (.add ⟨2⟩ (some "eth0 1")) trivial

theorem grows_titled : Grows labelled { name := "root" } titled :=
  Reaches.andThen .refl (.setLeaf ⟨1⟩ (.text "kept")) trivial

/-- A port takes the place of the label only, and there is none. -/
theorem not_costs_stacked : ¬ stacked.Costs ⟨2⟩ none := by
  intro hcosts
  obtain ⟨p, y, hp, hl, hno⟩ := hcosts
  have hplan : (stacked.plan ⟨2⟩ none).toOption.all (·.unsets.all (· == .contents ⟨1⟩)) = true := by
    decide +kernel
  have hlabel : (stacked.element? ⟨1⟩).all
      (fun e => !e.content.holdsData && e.below.isEmpty) = true := by
    decide +kernel
  refine hno fun c hm hu => ?_
  rw [hp] at hplan
  obtain rfl : c = ⟨1⟩ := Unset.contents.inj (beq_iff_eq.1 (List.all_eq_true.1 hplan _ hm))
  obtain rfl | ⟨z, ⟨e, he, hz⟩, -⟩ := Relation.ReflTransGen.cases_head_iff.1 hu
  · obtain ⟨e, he, hdata⟩ := hl
    rw [he] at hlabel
    simp [hdata] at hlabel
  · rw [he] at hlabel
    have hnil : e.below = [] := List.isEmpty_iff.1 (Bool.and_eq_true_iff.1 hlabel).2
    rw [hnil] at hz
    cases hz

/-- What stays unset is not lost: a second port fails without a trace. -/
theorem add_traceless_stacked :
    ∃ err t', (add ⟨2⟩ (some "eth1 bad")).on stacked = (.error err, t') ∧ stacked.Unscathed t' := by
  have hfails : ((add ⟨2⟩ (some "eth1 bad")).on stacked).1.toOption = none := by decide +kernel
  have hlist : (stacked.keyedList ⟨2⟩).toOption.all
      (fun l => l.schema.hasPlainLeaves && l.schema.entry.all (·.case.isNone)) = true := by
      decide +kernel
  have hheld : ∀ l, stacked.held ⟨2⟩ = some (.list l) →
      l.schema.hasPlainLeaves = true ∧ l.schema.entry.all (·.case.isNone) = true := by
    intro l hl
    rw [keyedList, listFor_eq_ok_iff.2 (held_eq_some_iff.1 hl)] at hlist
    exact Bool.and_eq_true_iff.1 hlist
  cases hr : (add ⟨2⟩ (some "eth1 bad")).on stacked with
  | mk r t' =>
    cases r with
    | ok key' =>
      rw [hr] at hfails
      cases hfails
    | error err =>
      obtain ⟨hgrows, htraceless⟩ := add_traceless rfl grows_stacked.evolves hr
      obtain ⟨-, hdata⟩ := htraceless (hgrows grows_stacked)
      have hplain : ∀ l, stacked.held ⟨2⟩ = some (.list l) → l.schema.PlainKeys :=
        fun l hl => ListSchema.plainKeys_of_leaves (hheld l hl).1
      refine ⟨err, t', rfl, (hdata hplain).2 fun l hl hcosts => ?_⟩
      obtain hcosts | ⟨field, -, case, type, default, hm, hcosts⟩ := hcosts
      · exact not_costs_stacked hcosts
      · obtain rfl : case = none :=
          Option.isNone_iff_eq_none.1 (List.all_eq_true.1 (hheld l hl).2 _ hm)
        exact not_costs_stacked hcosts

/-- A label is lost to a port that cannot be added. -/
theorem not_traceless_titled :
    ¬ ∀ (schema : Blueprint) (spec : ElementSpec) (t t' : Tree) (id : ElementId)
        (key : Option String) (err : Error), spec.parent = none → Grows schema spec t →
        (add id key).on t = (.error err, t') → t.Unscathed t' := by
  intro hall
  have hfails : ((add ⟨2⟩ (some "eth0 bad")).on titled).1.toOption = none := by decide +kernel
  have hlost : (((add ⟨2⟩ (some "eth0 bad")).on titled).2.held ⟨1⟩).any (·.assigned) = false := by
    decide +kernel
  have hheld : (titled.held ⟨1⟩).any (·.assigned) = true := by decide +kernel
  cases hr : (add ⟨2⟩ (some "eth0 bad")).on titled with
  | mk r t' =>
    rw [hr] at hfails hlost
    cases r with
    | ok key' => cases hfails
    | error err =>
      have hun := hall _ _ _ _ _ _ _ rfl grows_titled hr
      rw [held_congr (hun.element ⟨1⟩), hheld] at hlost
      cases hlost

end DataTree.Tree
