import DataTree.Proofs.Ledger.Removing
import DataTree.Proofs.Reference.Acyclic
import DataTree.Proofs.Reset.Upkeep

/-!
# DataTree.Proofs.Ledger.Session

What a list holds after a session.

The ledger of a list names the entries that were added to it, one after another, with the
elements that were made for them.  What the list holds are those that are still there, and if it
is ordered then in the order of the ledger (`lists_of_ledger`).  Only what was put into the list
by an add that fails in the end is not on the ledger, and that takes a plan that was stale.
-/

namespace DataTree

open Edit Outcome

namespace Tree

variable {t t' : Tree} {id x : ElementId} {e : Element} {l l' : KeyedList} {op : Operation}
  {schema : Blueprint} {spec : ElementSpec} {node : ElementId → Schema}
  {log kept new : List (String × ElementId)} {admits : Tree → Operation → Prop}

/-! ## One operation -/

/-- What of the list `id` an operation leaves in it: deleting takes out one entry of this list,
removing an element takes it out, unsetting empties the list if it is within the element, and
everything else leaves the list as it is or empties it on behalf of a case that it is in. -/
def Leaves (t : Tree) (id : ElementId) (l : KeyedList) (kept : List (String × ElementId)) :
    Operation → Prop
  | .delete x key =>
    if x = id then kept = (l.without key).members else kept = l.members ∨ kept = [] ∧ t.InCase id
  | .removeSubtree x => kept = l.members.filter fun m => m.2 ≠ x
  | .unset x => (t.Within x id → kept = []) ∧ (¬ t.Within x id → kept = l.members)
  | _ => kept = l.members ∨ kept = [] ∧ t.InCase id

/-- What an operation adds to the list `id`: an entry, if adding one succeeds, which is made in the
first new slot. -/
def entered (t : Tree) (id : ElementId) : Operation → List (String × ElementId)
  | .add x key =>
    if x = id then ((add x key).on t).1.toOption.toList.map fun key' => (key', ⟨t.slots.size⟩)
    else []
  | _ => []

/-- The operation adds an entry to the list `id` and fails, while the plan of the list is stale. -/
def FailsWhileStale (t : Tree) (id : ElementId) (op : Operation) : Prop :=
  ∃ key, op = .add id key ∧ (∀ key', ((add id key).on t).1 ≠ .ok key') ∧ t.Stale id

/-- No operation but adding enters anything. -/
theorem entered_eq_nil (h : ∀ key, op ≠ .add id key) : t.entered id op = [] := by
  cases op with
  | add x key =>
    rw [entered, if_neg]
    rintro rfl
    exact h key rfl
  | _ => rfl

/-- What a successful add enters. -/
theorem entered_of_ok {key : Option String} {key' : String} (h : ((add id key).on t).1 = .ok key') :
    t.entered id (.add id key) = [(key', ⟨t.slots.size⟩)] := by
  rw [entered, if_pos rfl, h]
  rfl

/-- A failed add enters nothing. -/
theorem entered_of_error {key : Option String} {err : Error}
    (h : ((add id key).on t).1 = .error err) : t.entered id (.add id key) = [] := by
  rw [entered, if_pos rfl, h]
  rfl

/-- What is entered was added with success. -/
theorem exists_of_mem_entered {m : String × ElementId} (h : m ∈ t.entered id op) :
    ∃ key key', op = .add id key ∧ ((add id key).on t).1 = .ok key' ∧
      m = (key', ⟨t.slots.size⟩) := by
  cases op with
  | add x key =>
    by_cases hx : x = id
    · subst hx
      cases hrun : ((add x key).on t).1 with
      | ok key' =>
        rw [entered_of_ok hrun] at h
        exact ⟨key, key', rfl, hrun, List.mem_singleton.1 h⟩
      | error err =>
        rw [entered_of_error hrun] at h
        cases h
    · rw [entered, if_neg hx] at h
      cases h
  | _ => cases h

/-- What the list holds after the operation are entries that it leaves and those that it adds.  If
it fails to add one while the plan of the list is stale, there may be one all the same. -/
def MembersAfter (t : Tree) (id : ElementId) (l : KeyedList) (op : Operation) (l' : KeyedList) :
    Prop :=
  ∃ kept new, t.Leaves id l kept op ∧ l'.members = kept ++ new ∧
    (new = t.entered id op ∨ t.FailsWhileStale id op ∧ ∃ key, new = [(key, ⟨t.slots.size⟩)])

/-- Everything else upholds the list. -/
theorem Upholds.membersAfter (h : t.Upholds (t.InCase id) id t')
    (hl' : t'.held id = some (.list l'))
    (hleaves : ∀ {l}, (l'.members = l.members ∨ l'.members = [] ∧ t.InCase id) →
      t.Leaves id l l'.members op)
    (hnew : t.entered id op = []) :
    ∃ l, t.held id = some (.list l) ∧ l'.schema = l.schema ∧ t.MembersAfter id l op l' := by
  obtain ⟨l, hl, hschema, hm⟩ := h hl'
  exact ⟨l, hl, hschema, l'.members, [], hleaves hm, (List.append_nil _).symm, .inl hnew.symm⟩

/-- **One operation**: a list that was there and still is holds what the operation leaves of it, and
after that what it adds. -/
theorem exists_membersAfter (hs : Sound t ∅) (hf : t.Follows schema node) (ha : schema.root.Apart)
    (hh : t.Hooked) (hop : t.Handling op) (hid : id.index < t.slots.size)
    (hl' : (op.after t).held id = some (.list l')) :
    ∃ l, t.held id = some (.list l) ∧ l'.schema = l.schema ∧ t.MembersAfter id l op l' := by
  have hframe : FrameStable
      (fun t' => Sound t' ∅ ∧ t'.Declared ∧ t.Shrinks t' ∧ t.Upholds (t.InCase id) id t')
      (t.Cased (t.InCase id) id) := frameStable_upholds hs fun hc => hc
  have hself : Sound t ∅ ∧ t.Declared ∧ t.Shrinks t ∧ t.Upholds (t.InCase id) id t :=
    ⟨hs, hf.declared, refl_of Shrinks t, refl_of (Upholds (t.InCase id) id) t⟩
  cases op with
  | set x active =>
    exact (hframe.assignStable.set x active t hself).2.2.2.membersAfter hl' (fun hm => hm) rfl
  | setLeaf x raw =>
    exact (hframe.assignStable.setLeaf x raw t hself).2.2.2.membersAfter hl' (fun hm => hm) rfl
  | editItem x edit =>
    exact (hframe.editItem x edit t hself).2.2.2.membersAfter hl' (fun hm => hm) rfl
  | extend x raws => exact (hframe.extend x raws t hself).2.2.2.membersAfter hl' (fun hm => hm) rfl
  | unset x =>
    obtain ⟨l, hl, hschema, hin, hout⟩ := clears_unset hs hf.declared x hl'
    exact ⟨l, hl, hschema, l'.members, [], ⟨hin, hout⟩, (List.append_nil _).symm, .inl rfl⟩
  | removeSubtree x =>
    obtain ⟨l, hl, rfl⟩ := forgets_removeSubtree hs x hl'
    exact ⟨l, hl, rfl, _, [], rfl, (List.append_nil _).symm, .inl rfl⟩
  | delete x key =>
    by_cases hx : x = id
    · subst hx
      have hshr := shrinks_after hs hop (by rintro _ _ ⟨⟩)
      obtain ⟨l, hl, hschema⟩ := hshr.exists_list hl'
      have hdel := held_delete hs hf ha hh hl key
      obtain rfl := Content.list.inj (Option.some.inj (hl'.symm.trans hdel))
      refine ⟨l, hl, hschema, _, [], ?_, (List.append_nil _).symm, .inl rfl⟩
      rw [Leaves, if_pos rfl]
    · refine (upholds_delete hs hf.declared hx key).membersAfter hl' (fun hm => ?_) rfl
      rw [Leaves, if_neg hx]
      exact hm
  | add x key =>
    by_cases hx : x = id
    · subst hx
      cases hrun : (add x key).on t with
      | mk r t' =>
        have hl' : ((add x key).on t).2.held x = some (.list l') := hl'
        rw [hrun] at hl'
        cases r with
        | ok key' =>
          obtain ⟨l, l₁, kept, hl, hl₁, hschema, hkept, hm⟩ := (enters_add hs hf ha key).of_ok hrun
          obtain rfl := Content.list.inj (Option.some.inj (hl'.symm.trans hl₁))
          exact ⟨l, hl, hschema, kept, _, hkept, hm, .inl (entered_of_ok (by rw [hrun])).symm⟩
        | error err =>
          obtain ⟨hstale, key', l, l₁, kept, hl, hl₁, hschema, hkept, hm⟩ | hup :=
            (enters_add hs hf ha key).of_error hrun
          · obtain rfl := Content.list.inj (Option.some.inj (hl'.symm.trans hl₁))
            refine ⟨l, hl, hschema, kept, _, hkept, hm,
              .inr ⟨⟨key, rfl, fun key' hok => ?_, hstale⟩, key', rfl⟩⟩
            rw [hrun] at hok
            cases hok
          · exact hup.membersAfter hl' (fun hm => hm) (entered_of_error (by rw [hrun]))
    · refine ((upholds_add hs hf (Ne.symm hx) key).1 hid).membersAfter hl' (fun hm => hm) ?_
      rw [entered, if_neg hx]
  | _ => exact hop.elim

/-- A list that was not there yet has no entries, and none is added to it. -/
theorem empty_after (hs : Sound t ∅) (hf : t.Follows schema node) (ha : schema.root.Apart)
    (hop : t.Handling op) (hid : t.slots.size ≤ id.index) :
    t.entered id op = [] ∧ ∀ {l'}, (op.after t).held id = some (.list l') → l'.members = [] := by
  have hnone := element?_eq_none_of_size_le hid
  have hdead : ∀ {l}, t.held id ≠ some (.list l) := by
    intro l hl
    rw [held, hnone] at hl
    cases hl
  by_cases hadd : ∃ key, op = .add id key
  · obtain ⟨key, rfl⟩ := hadd
    cases hrun : (add id key).on t with
    | mk r t' =>
      cases r with
      | ok key' =>
        obtain ⟨l, -, -, hl, -⟩ := (enters_add hs hf ha key).of_ok hrun
        exact absurd hl hdead
      | error err =>
        refine ⟨entered_of_error (by rw [hrun]), fun {l'} hl' => ?_⟩
        have hl' : ((add id key).on t).2.held id = some (.list l') := hl'
        rw [hrun] at hl'
        obtain ⟨-, key', l, -, -, hl, -⟩ | hup := (enters_add hs hf ha key).of_error hrun
        · exact absurd hl hdead
        · obtain ⟨l, hl, -⟩ := hup hl'
          exact absurd hl hdead
  · simp only [not_exists] at hadd
    refine ⟨entered_eq_nil hadd, fun {l'} hl' => ?_⟩
    by_cases hother : ∃ x key, op = .add x key
    · obtain ⟨x, key, rfl⟩ := hother
      exact (upholds_add hs hf (fun hx => hadd key (by rw [hx])) key).2 hid l' hl'
    · obtain ⟨l, hl, -⟩ :=
        (shrinks_after hs hop fun x key heq => hother ⟨x, key, heq⟩).exists_list hl'
      exact absurd hl hdead

/-- What is left is part of what there was, and in the same order if the list is ordered. -/
theorem Leaves.subset (h : t.Leaves id l kept op) (hn : l.keys.Nodup) :
    kept ⊆ l.members ∧ (l.schema.ordered = true → kept.Sublist l.members) := by
  have hsame : kept = l.members ∨ kept = [] ∧ t.InCase id →
      kept ⊆ l.members ∧ (l.schema.ordered = true → kept.Sublist l.members) := by
    rintro (rfl | ⟨rfl, -⟩)
    · exact ⟨List.Subset.refl _, fun _ => List.Sublist.refl _⟩
    · exact ⟨List.nil_subset _, fun _ => List.nil_sublist _⟩
  cases op with
  | delete x key =>
    rw [Leaves] at h
    split at h
    · subst h
      cases htake : l.take? key with
      | none =>
        have hall : l.without key = l := by
          rw [KeyedList.without, htake]
          rfl
        rw [hall]
        exact ⟨List.Subset.refl _, fun _ => List.Sublist.refl _⟩
      | some taken =>
        obtain ⟨entry, rest⟩ := taken
        have hrest : l.without key = rest := by
          rw [KeyedList.without, htake]
          rfl
        obtain ⟨-, hperm⟩ := KeyedList.perm_of_take hn htake
        rw [hrest]
        refine ⟨fun m hm => hperm.mem_iff.2 (List.mem_cons_of_mem _ hm), fun hordered => ?_⟩
        obtain ⟨_, -, heq⟩ := Option.map_eq_some_iff.1 htake
        obtain ⟨-, rfl⟩ := Prod.mk.inj heq
        simp only [hordered, if_true]
        exact List.filter_sublist
    · exact hsame h
  | removeSubtree x =>
    obtain rfl := h
    exact ⟨List.filter_sublist.subset, fun _ => List.filter_sublist⟩
  | unset x =>
    obtain ⟨hin, hout⟩ := h
    by_cases hw : t.Within x id
    · rw [hin hw]
      exact ⟨List.nil_subset _, fun _ => List.nil_sublist _⟩
    · exact hsame (.inl (hout hw))
  | _ => exact hsame h

/-! ## The ledger -/

/-- Admitted operations lead to `t`, and `log` names the entries that they added to the list
`id`. -/
inductive Ledger (admits : Tree → Operation → Prop) (schema : Blueprint) (spec : ElementSpec)
    (id : ElementId) : List (String × ElementId) → Tree → Prop
  | start : Ledger admits schema spec id [] ((Operation.instantiate schema spec).after {})
  | step {log : List (String × ElementId)} {t : Tree}
      (h : Ledger admits schema spec id log t) (op : Operation)
      (hop : admits t op) : Ledger admits schema spec id (log ++ t.entered id op) (op.after t)

/-- Any handling, but for adding an entry to the list `id` while its plan is stale. -/
def Recording (id : ElementId) (t : Tree) (op : Operation) : Prop :=
  t.Handling op ∧ ¬ t.FailsWhileStale id op

theorem Ledger.evolves (h : Ledger (Recording id) schema spec id log t) :
    Evolves schema spec t := by
  induction h with
  | start => exact .refl
  | step _ op hop ih => exact ih.andThen op hop.1

/-- What of a ledger is still there. -/
def remaining (t : Tree) (log : List (String × ElementId)) : List (String × ElementId) :=
  log.filter fun m => (t.element? m.2).isSome

/-- What remains of a ledger is what is still there. -/
theorem mem_remaining_iff {m : String × ElementId} :
    m ∈ t.remaining log ↔ m ∈ log ∧ (t.element? m.2).isSome := List.mem_filter

theorem remaining_append (t : Tree) (log new : List (String × ElementId)) :
    t.remaining (log ++ new) = t.remaining log ++ t.remaining new := List.filter_append log new

/-- What remains later remains of what remained before. -/
theorem Ages.remaining (h : t.Ages t') (hlog : ∀ m ∈ log, m.2.index < t.slots.size) :
    t'.remaining (t.remaining log) = t'.remaining log := by
  rw [Tree.remaining, Tree.remaining, List.filter_filter]
  refine List.filter_congr fun m hm => ?_
  cases hm' : t'.element? m.2 with
  | none => rfl
  | some e' =>
    cases he : t.element? m.2 with
    | none =>
      rw [h.empty (hlog m hm) he] at hm'
      cases hm'
    | some e => rfl

/-- Nothing adds or removes elements behind the back of the list. -/
theorem lasts_after (hs : Sound t ∅) (hop : t.Handling op) : t.Lasts (op.after t) := by
  by_cases hadd : ∃ x key, op = .add x key
  · obtain ⟨x, key, rfl⟩ := hadd
    exact (births_add hs x key).lasts
  · exact (shrinks_after hs hop fun x key heq => hadd ⟨x, key, heq⟩).lasts

/-- What an operation leaves of a list are the entries that are still there. -/
theorem Lasts.perm_remaining (h : t.Lasts t') (hs : Sound t ∅) (hs' : Sound t' ∅)
    (hl : t.held id = some (.list l)) (hl' : t'.held id = some (.list l')) (hsub : kept ⊆ l.members)
    (hnew : ∀ m ∈ new, t.slots.size ≤ m.2.index) (hm : l'.members = kept ++ new) :
    kept.Perm (t'.remaining l.members) ∧
    (kept.Sublist l.members → kept = t'.remaining l.members) := by
  obtain ⟨e, he, hcont⟩ := held_eq_some_iff.1 hl
  obtain ⟨e', he', hcont'⟩ := held_eq_some_iff.1 hl'
  have hlive : ∀ m ∈ kept, (t'.element? m.2).isSome := by
    intro m hmk
    have hmem : (m.1, m.2) ∈ l'.members := hm ▸ List.mem_append_left _ hmk
    obtain ⟨-, ce, hce, -⟩ := hs'.entry he' hcont' hmem
    rw [hce]
    rfl
  have hstill : ∀ m ∈ l.members, (t'.element? m.2).isSome → m ∈ kept := by
    intro m hml hsome
    obtain ⟨key, c⟩ := m
    obtain ⟨ce', hce'⟩ := Option.isSome_iff_exists.1 hsome
    obtain ⟨-, ce, hce, -, hpar, -⟩ := hs.entry he hcont hml
    have hlt := index_lt_of_element? hce
    obtain ⟨ce₀, hce₀, hbare⟩ := h.element hlt hce'
    obtain rfl : ce = ce₀ := Option.some.inj (hce.symm.trans hce₀)
    obtain ⟨e₁, he₁, hbelow⟩ :=
      hs'.listed hce' (by rw [Element.parent_of_bare hbare, hpar]) (Set.notMem_empty c)
    obtain rfl : e' = e₁ := Option.some.inj (he'.symm.trans he₁)
    obtain ⟨name, hchild⟩ | ⟨l₁, key', hl₁, hc⟩ := Element.mem_below hbelow
    · obtain ⟨hcontainer, -⟩ := hs'.child he' hchild
      rw [hcont'] at hcontainer
      cases hcontainer
    · obtain rfl := Content.list.inj (hcont'.symm.trans hl₁)
      rw [hm] at hc
      obtain hc | hc := List.mem_append.1 hc
      · have heq := List.inj_on_of_nodup_map (hs.entries he hcont) (hsub hc) hml rfl
        exact heq ▸ hc
      · have hle := hnew _ hc
        exact absurd hlt (Nat.not_lt.2 hle)
  have hnodup : l.members.Nodup := (hs.keys he hcont).of_map _
  have hnodup' : kept.Nodup := by
    have hall : l'.members.Nodup := (hs'.keys he' hcont').of_map _
    rw [hm] at hall
    exact hall.of_append_left
  have hperm : kept.Perm (t'.remaining l.members) := by
    refine (List.perm_ext_iff_of_nodup hnodup' (hnodup.filter _)).2 fun m => ?_
    rw [← remaining, mem_remaining_iff]
    exact ⟨fun hmk => ⟨hsub hmk, hlive m hmk⟩, fun hml => hstill m hml.1 hml.2⟩
  refine ⟨hperm, fun hsublist => ?_⟩
  have hself : t'.remaining kept = kept := List.filter_eq_self.2 hlive
  have hle : kept.Sublist (t'.remaining l.members) := hself ▸ hsublist.filter _
  exact hle.eq_of_length hperm.length_eq

/-- The list holds what remains of the ledger. -/
structure Tallies (t : Tree) (id : ElementId) (log : List (String × ElementId)) : Prop where
  later : ∀ m ∈ log, id.index < m.2.index ∧ m.2.index < t.slots.size
  perm : ∀ {l}, t.held id = some (.list l) → l.members.Perm (t.remaining log)
  ordered : ∀ {l}, t.held id = some (.list l) → l.schema.ordered = true →
    l.members = t.remaining log

/-- As it is built, no list has entries. -/
theorem empty_instantiate (hroot : spec.parent = none)
    (hl : ((Operation.instantiate schema spec).after {}).held id = some (.list l)) :
    l.members = [] := by
  have hblank : ∀ x e, ((Operation.instantiate schema spec).after {}).element? x = some e →
      e.content.holdsData = false := by
    let told : Tree := tell {} (.instantiating spec.name)
    have hs : Sound told ∅ := sound_empty.sameFrame (sameFrame_tell {} _)
    have hfit : told.Fits spec := by constructor <;> simp [HasParent, hroot]
    have hbuild := (ensures_build schema.root schema.distinct hs hfit).and
      (laid_build schema.root schema.distinct hs hfit)
    refine rel_of_ensures (R :=
      fun _ t' => ∀ x e, t'.element? x = some e → e.content.holdsData = false)
      (x := instantiate schema spec) (t := {}) ?_
    rw [instantiate, ensures_changing_bind]
    refine (hbuild.mono (fun _ _ hb => hb) fun _ t' hb x e he => ?_).bind fun root t₂ hb => ?_
    · rw [hb.1.2.element x, element?_eq_none_of_size_le (Nat.zero_le _)] at he
      cases he
    · obtain ⟨hb, hlaid⟩ := hb
      have hroot0 : root.index = 0 := by rw [hb.id_eq]; rfl
      have hall : ∀ x e, t₂.element? x = some e → e.content.holdsData = false := fun x e =>
        hlaid.blank (hroot0 ▸ Nat.zero_le _)
      rw [ensures_reading_bind]
      refine ⟨fun _ _ => ?_, fun _ _ => hall⟩
      rw [ensures_get_bind]
      refine ⟨fun e _ => ?_, fun _ => hall⟩
      rw [ensures_changing_bind]
      exact hall
  obtain ⟨e, he, hcont⟩ := held_eq_some_iff.1 hl
  exact Content.links_eq_nil (c := .list l) (hcont ▸ hblank id e he)

theorem tallies_instantiate (hroot : spec.parent = none) :
    ((Operation.instantiate schema spec).after {}).Tallies id [] where
  later := fun _ hm => by cases hm
  perm := fun hl => by rw [empty_instantiate hroot hl]; exact .refl _
  ordered := fun hl _ => empty_instantiate hroot hl

/-- A successful add puts its entry into the list. -/
theorem exists_list_of_add (hs : Sound t ∅) (hf : t.Follows schema node) (ha : schema.root.Apart)
    {key : Option String} {key' : String} (hok : ((add id key).on t).1 = .ok key') :
    ∃ l', ((add id key).on t).2.held id = some (.list l') ∧
      (key', ⟨t.slots.size⟩) ∈ l'.members := by
  cases hrun : (add id key).on t with
  | mk r t' =>
    rw [hrun] at hok
    obtain rfl : r = .ok key' := hok
    obtain ⟨-, l', kept, -, hl', -, -, hm⟩ := (enters_add hs hf ha key).of_ok hrun
    exact ⟨l', hl', by simp [hm]⟩

/-- Every operation keeps the tally. -/
theorem Tallies.after (h : t.Tallies id log) (hs : Sound t ∅) (hf : t.Follows schema node)
    (ha : schema.root.Apart) (hh : t.Hooked) (hs' : Sound (op.after t) ∅)
    (hop : Recording id t op) :
    (op.after t).Tallies id (log ++ t.entered id op) := by
  obtain ⟨hop, hno⟩ := hop
  have hages := ages_after op t
  have hold : ∀ m ∈ log, m.2.index < t.slots.size := fun m hm => (h.later m hm).2
  have hnew : ∀ m ∈ t.entered id op, t.slots.size ≤ m.2.index := by
    intro m hm
    obtain ⟨key, key', -, -, rfl⟩ := exists_of_mem_entered hm
    exact Nat.le_refl _
  have hlist : ∀ {l'}, (op.after t).held id = some (.list l') →
      l'.members.Perm ((op.after t).remaining (log ++ t.entered id op)) ∧
        (l'.schema.ordered = true → l'.members =
          (op.after t).remaining (log ++ t.entered id op)) := by
    intro l' hl'
    by_cases hid : id.index < t.slots.size
    · obtain ⟨l, hl, hschema, kept, new, hleaves, hm, rfl | ⟨hfails, -⟩⟩ :=
        exists_membersAfter hs hf ha hh hop hid hl'
      rotate_left
      · exact absurd hfails hno
      obtain ⟨e, he, hcont⟩ := held_eq_some_iff.1 hl
      obtain ⟨e', he', hcont'⟩ := held_eq_some_iff.1 hl'
      obtain ⟨hsub, hsublist⟩ := hleaves.subset (hs.keys he hcont)
      obtain ⟨hperm, heq⟩ := (lasts_after hs hop).perm_remaining hs hs' hl hl' hsub hnew hm
      have hentered : (op.after t).remaining (t.entered id op) = t.entered id op := by
        refine List.filter_eq_self.2 fun m hmn => ?_
        have hmem : (m.1, m.2) ∈ l'.members := hm ▸ List.mem_append_right _ hmn
        obtain ⟨-, ce, hce, -⟩ := hs'.entry he' hcont' hmem
        rw [hce]
        rfl
      rw [hm, remaining_append, hentered, ← hages.remaining hold]
      refine ⟨(hperm.trans ((h.perm hl).filter _)).append_right _, fun hordered => ?_⟩
      rw [hschema] at hordered
      rw [heq (hsublist hordered), h.ordered hl hordered]
    · obtain ⟨hentered, hempty⟩ := empty_after hs hf ha hop (Nat.le_of_not_lt hid)
      have hlog : log = [] := by
        refine List.eq_nil_iff_forall_not_mem.2 fun m hm => hid ?_
        obtain ⟨hlt, hlt'⟩ := h.later m hm
        exact Nat.lt_trans hlt hlt'
      rw [hempty hl', hentered, hlog]
      exact ⟨.refl _, fun _ => rfl⟩
  constructor
  case later =>
    intro m hm
    obtain hm | hm := List.mem_append.1 hm
    · exact ⟨(h.later m hm).1, Nat.lt_of_lt_of_le (hold m hm) hages.size_le⟩
    · obtain ⟨key, key', rfl, hok, rfl⟩ := exists_of_mem_entered hm
      obtain ⟨l', hl', hentry⟩ := exists_list_of_add hs hf ha hok
      obtain ⟨e', he', hcont'⟩ := held_eq_some_iff.1 hl'
      obtain ⟨-, ce, hce, -, hpar, -⟩ := hs'.entry he' hcont' hentry
      exact ⟨hs'.parent_lt hce hpar, index_lt_of_element? hce⟩
  case perm => exact fun hl' => (hlist hl').1
  case ordered => exact fun hl' => (hlist hl').2

/-- **The ledger of a list tallies with it** in every recorded session. -/
theorem Ledger.tallies (ha : schema.root.Apart) (hroot : spec.parent = none)
    (h : Ledger (Recording id) schema spec id log t) : t.Tallies id log := by
  induction h with
  | start => exact tallies_instantiate hroot
  | step h op hop ih =>
    obtain ⟨hs, node, hf⟩ := schematic_of_evolves hroot h.evolves
    obtain ⟨hs', -⟩ := schematic_of_evolves hroot (h.evolves.andThen op hop.1)
    exact ih.after hs hf ha (hooked_of_evolves h.evolves) hs' hop

/-! ## Reading -/

/-- A list reads as its entries read. -/
theorem value_eq_mapM (hl : t.held id = some (.list l)) :
    t.value id = (l.members.mapM (t.readNamed t.slots.size false)).map Value.map := by
  obtain ⟨e, he, hcont⟩ := held_eq_some_iff.1 hl
  exact snapshotFrom_list he hcont

/-- A list reads as what its entries read as, under their keys and in their order. -/
theorem value_of_list {v : Value} (hl : t.held id = some (.list l)) (hv : t.value id = .ok v) :
    ∃ vs, v = .map vs ∧
    List.Forall₂ (fun m r => r.1 = m.1 ∧ t.value m.2 = .ok r.2) l.members vs := by
  rw [value_eq_mapM hl] at hv
  obtain ⟨vs, hvs, rfl⟩ := map_eq_ok.1 hv
  refine ⟨vs, rfl, (mapM_eq_ok.1 hvs).imp fun m r hr => ?_⟩
  obtain ⟨v, hv, rfl⟩ := map_eq_ok.1 hr
  exact ⟨rfl, snapshotFrom_succ hv⟩

/-- Where nothing leads in a circle, a list can be read just if all its entries can. -/
theorem exists_value_list_iff (hacyclic : t.Acyclic) (hl : t.held id = some (.list l)) :
    (∃ v, t.value id = .ok v) ↔ ∀ m ∈ l.members, ∃ v, t.value m.2 = .ok v := by
  rw [value_eq_mapM hl]
  constructor
  · rintro ⟨v, hv⟩ m hm
    obtain ⟨vs, hvs, -⟩ := map_eq_ok.1 hv
    obtain ⟨_, -, hr⟩ := exists_mem_of_mapM hvs hm
    obtain ⟨w, hw, -⟩ := map_eq_ok.1 hr
    exact ⟨w, snapshotFrom_succ hw⟩
  intro hall
  obtain ⟨e, he, hcont⟩ := held_eq_some_iff.1 hl
  have hread : ∀ m ∈ l.members, ∃ r, t.readNamed t.slots.size false m = .ok r := by
    intro m hm
    have hbelow : m.2 ∈ e.below := Element.mem_below_of_entry hcont hm
    have hends : t.Ends t.slots.size m.2 := hacyclic.ends he m.2 (mem_leadsOn_of_below he hbelow)
    obtain ⟨v, hv⟩ := hall m hm
    refine ⟨(m.1, v), ?_⟩
    rw [readNamed, hends.snapshotFrom_succ]
    exact map_eq_ok.2 ⟨v, hv, rfl⟩
  obtain ⟨vs, hvs⟩ := exists_mapM_eq_ok hread
  exact ⟨.map vs, map_eq_ok.2 ⟨vs, hvs, rfl⟩⟩

/-! ## Sessions -/

/-- What a list has of its ledger: it has what remains of the ledger, each key once, under which the
element is found that was made for it.  It reads as its entries read, and can be read if these can,
unless something leads in a circle.  If it is ordered, its keys, its entries and what it reads as
are in the order of the ledger. -/
structure ReflectsLedger (t : Tree) (id : ElementId) (l : KeyedList)
    (log : List (String × ElementId)) : Prop where
  perm : l.members.Perm (t.remaining log)
  keys_nodup : l.keys.Nodup
  entry : ∀ {key c}, (key, c) ∈ t.remaining log → t.entry id key = .ok c
  keys : l.schema.ordered = true → l.keys = (t.remaining log).map Prod.fst
  entries : l.schema.ordered = true → l.entries = (t.remaining log).map Prod.snd
  value : ∀ {v}, t.value id = .ok v → ∃ vs, v = .map vs ∧
    List.Forall₂ (fun m r => r.1 = m.1 ∧ t.value m.2 = .ok r.2) l.members vs
  readable : t.Acyclic → ((∃ v, t.value id = .ok v) ↔ ∀ m ∈ l.members, ∃ v, t.value m.2 = .ok v)
  value_ordered : l.schema.ordered = true → ∀ {v}, t.value id = .ok v →
    ∃ vs, v = .map vs ∧ vs.map Prod.fst = (t.remaining log).map Prod.fst

/-- While no child of a container was removed, no plan is stale. -/
theorem Matures.not_stale (hroot : spec.parent = none) (h : Matures schema spec t)
    (x : ElementId) : ¬ t.Stale x := by
  intro hstale
  obtain ⟨p, b, hp, hm, hb⟩ := hstale
  have ho := (maintained_of_matures hroot h).orderly
  have hall :=
    (ensures_runUnsets_of_dead hm hb).and (ensures_runUnsets_plan ho.sound ho.arranged hp)
  unfold Ensures at hall
  split at hall
  · exact hall.1
  · exact hall.2

/-- **The ledger of a list**: in every tree that a schema describes whose choices are apart,
whatever was done with it, a list holds the entries that were added to it and are still there, if it
is ordered in the order in which they were added.  An operation leaves all entries but those that it
takes out, and a successful add puts its entry in.  This counts on no add having failed while the
plan of the list was stale, as that may leave an entry, too.  No plan is stale while no child of a
container was removed. -/
theorem lists_of_ledger (ha : schema.root.Apart) (hroot : spec.parent = none)
    (h : Ledger (Recording id) schema spec id log t) (hl : t.keyedList id = .ok l) :
    t.ReflectsLedger id l log ∧
      (∀ op, t.Handling op → ∀ {l'}, (op.after t).keyedList id = .ok l' →
        t.MembersAfter id l op l') ∧
      (∀ {key key'}, ((add id key).on t).1 = .ok key' →
        ∃ l', ((add id key).on t).2.keyedList id = .ok l' ∧
        (key', ⟨t.slots.size⟩) ∈ l'.members) ∧
      (Matures schema spec t → ∀ op, ¬ t.FailsWhileStale id op) := by
  obtain ⟨hs, node, hf⟩ := schematic_of_evolves hroot h.evolves
  have hheld : ∀ {t : Tree} {l}, t.keyedList id = .ok l ↔ t.held id = some (.list l) := by
    intro t l
    rw [keyedList, listFor_eq_ok_iff, held_eq_some_iff]
  have htally := h.tallies ha hroot
  have hl₀ := hheld.1 hl
  obtain ⟨e, he, hcont⟩ := held_eq_some_iff.1 hl₀
  have hperm := htally.perm hl₀
  have hordered := htally.ordered hl₀
  refine ⟨?_, fun op hop l' hl' => ?_, fun hok => ?_, fun hmat op hfails => ?_⟩
  · constructor
    case perm => exact hperm
    case keys_nodup => exact hs.keys he hcont
    case entry =>
      intro key c hm
      have hget := Assoc.get?_eq_some_of_mem (hs.keys he hcont) (hperm.mem_iff.2 hm)
      have hlist : t.listFor "add" id = .ok l := listFor_eq_ok_iff.2 ⟨e, he, hcont⟩
      have hfound : l.get? key = some c := hget
      simp only [entry, hlist, bind, Except.bind, hfound]
      rfl
    case keys =>
      intro ho
      rw [← hordered ho]
      rfl
    case entries =>
      intro ho
      rw [← hordered ho]
      rfl
    case value => exact value_of_list hl₀
    case readable => exact fun hacyclic => exists_value_list_iff hacyclic hl₀
    case value_ordered =>
      intro ho v hv
      obtain ⟨vs, rfl, hvs⟩ := value_of_list hl₀ hv
      have hkeys : List.Forall₂ (· = ·) (l.members.map Prod.fst) (vs.map Prod.fst) := by
        rw [List.forall₂_map_left_iff, List.forall₂_map_right_iff]
        exact hvs.imp fun _ _ hr => hr.1.symm
      rw [List.forall₂_eq_eq_eq] at hkeys
      exact ⟨vs, rfl, by rw [← hordered ho, hkeys]⟩
  · obtain ⟨l₁, hl₁, -, hafter⟩ := exists_membersAfter hs hf ha (hooked_of_evolves h.evolves) hop
      (index_lt_of_element? he) (hheld.1 hl')
    obtain rfl := Content.list.inj (Option.some.inj (hl₀.symm.trans hl₁))
    exact hafter
  · obtain ⟨l', hl', hm⟩ := exists_list_of_add hs hf ha hok
    exact ⟨l', hheld.2 hl', hm⟩
  · obtain ⟨-, -, -, hstale⟩ := hfails
    exact hmat.not_stale hroot id hstale

/-! ## A session -/

/-- A list of seats, which keeps them in order. -/
def seating : Blueprint :=
  .container [⟨"seat", none, .list ⟨⟨["name"]⟩, [⟨"name", none, .leaf .string⟩], true⟩⟩]

theorem apart_seating : seating.root.Apart := by
  simp [seating, Blueprint.declared, declareAll, declare, Schema.Apart, Schema.AllApart,
    Schema.MembersApart]

/-- The seats after some operations, the last one first. -/
def seated : List Operation → Tree
  | [] => (Operation.instantiate seating { name := "root" }).after {}
  | op :: ops => op.after (seated ops)

/-- The seats that were added by then. -/
def seats : List Operation → List (String × ElementId)
  | [] => []
  | op :: ops => seats ops ++ (seated ops).entered ⟨1⟩ op

theorem recording_of_isOk {key : Option String} (h : ((add id key).on t).1.isOk = true) :
    Recording id t (.add id key) := by
  refine ⟨trivial, fun hfails => ?_⟩
  obtain ⟨_, heq, hno, -⟩ := hfails
  obtain ⟨-, rfl⟩ := Operation.add.inj heq
  obtain ⟨key', t', hon⟩ := exists_ok_of_isOk h
  exact hno key' (by rw [hon])

/-- The first seat was given up and taken again. -/
def moves : List Operation :=
  [.add ⟨1⟩ (some "a"), .delete ⟨1⟩ "a", .add ⟨1⟩ (some "b"), .add ⟨1⟩ (some "a")]

theorem ledger_moves :
    Ledger (Recording ⟨1⟩) seating { name := "root" } ⟨1⟩ (seats moves) (seated moves) := by
  refine .step (.step (.step (.step .start _ ?_) _ ?_) _ ?_) _ ?_
  · exact recording_of_isOk (by decide +kernel)
  · exact recording_of_isOk (by decide +kernel)
  · refine ⟨trivial, ?_⟩
    rintro ⟨_, ⟨⟩, -⟩
  · exact recording_of_isOk (by decide +kernel)

/-- The seat that was taken again is the last one, and another element. -/
theorem lists_moves :
    ∃ l, (seated moves).keyedList ⟨1⟩ = .ok l ∧ l.keys = ["b", "a"] ∧
      (seated moves).entry ⟨1⟩ "a" = .ok ⟨6⟩ := by
  obtain ⟨l, hl⟩ : ∃ l, (seated moves).keyedList ⟨1⟩ = .ok l := by
    have hok : ((seated moves).keyedList ⟨1⟩).isOk = true := by decide +kernel
    cases h : (seated moves).keyedList ⟨1⟩ with
    | ok l => exact ⟨l, rfl⟩
    | error err => rw [h] at hok; cases hok
  have hordered : ((seated moves).keyedList ⟨1⟩).toOption.any (·.schema.ordered) = true := by
    decide +kernel
  have hremaining : (seated moves).remaining (seats moves) = [("b", ⟨4⟩), ("a", ⟨6⟩)] := by
    decide +kernel
  rw [hl] at hordered
  obtain ⟨hledger, -⟩ := lists_of_ledger apart_seating rfl ledger_moves hl
  refine ⟨l, hl, ?_, hledger.entry ?_⟩
  · rw [hledger.keys hordered, hremaining]
    rfl
  · rw [hremaining]
    simp

/-- A seat with a name that is one of two things, and a note beside the list. -/
def reserving : Blueprint :=
  .container
    [⟨"note", some ⟨"use", "closed"⟩, .leaf .string⟩,
      ⟨"seat", some ⟨"use", "open"⟩,
        .list ⟨⟨["name"]⟩, [⟨"name", some ⟨"by", "name"⟩, .leaf .string⟩], true⟩⟩]

/-- The note was removed. -/
def reserved : Tree :=
  (Operation.removeSubtree ⟨1⟩).after
    ((Operation.instantiate reserving { name := "root" }).after {})

/-- Adding a seat fails then, as the note cannot be unset any more, but the seat is in the list. -/
theorem not_lists_reserved :
    ¬ ∀ (schema : Blueprint) spec id log t l, schema.root.Apart → spec.parent = none →
      Ledger Handling schema spec id log t → t.keyedList id = .ok l →
      l.members.Perm (t.remaining log) := by
  intro hall
  have hapart : reserving.root.Apart := by
    simp [reserving, Blueprint.declared, declareAll, declare, Schema.Apart, Schema.AllApart,
      Schema.MembersApart, Schema.choices, Schema.choicesOf]
  have hledger : Ledger Handling reserving { name := "root" } ⟨2⟩
      ([] ++ [] ++ reserved.entered ⟨2⟩ _) _ :=
    .step (.step .start (.removeSubtree ⟨1⟩) trivial) (.add ⟨2⟩ (some "k")) trivial
  have hnone : reserved.entered ⟨2⟩ (.add ⟨2⟩ (some "k")) = [] := by decide +kernel
  rw [hnone] at hledger
  have hkeys : (((Operation.add ⟨2⟩ (some "k")).after reserved).keyedList ⟨2⟩).toOption.map (·.keys)
      = some ["k"] := by decide +kernel
  cases hl : ((Operation.add ⟨2⟩ (some "k")).after reserved).keyedList ⟨2⟩ with
  | error err =>
    rw [hl] at hkeys
    cases hkeys
  | ok l =>
    have hnil : l.members = [] := (hall _ _ _ _ _ l hapart rfl hledger hl).eq_nil
    have hkeys : l.keys = ["k"] := by
      rw [hl] at hkeys
      exact Option.some.inj hkeys
    rw [KeyedList.keys, hnil] at hkeys
    cases hkeys

end Tree

end DataTree
