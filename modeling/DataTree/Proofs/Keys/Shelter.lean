import DataTree.Proofs.Choice.Apart

/-!
# DataTree.Proofs.Keys.Shelter

What is under a list is sheltered.

The hooks that the plan of a list runs lead to children of containers above the list, and
so never into an entry (`Follows.leadOut`, `LeadOut.eq_of_under`).  Either they reach the
list, and then it is empty afterwards, or they leave all that is under it alone
(`Shelters`).
-/

namespace DataTree.Tree

open Edit Outcome

variable {t₀ t t' : Tree} {pending : Set ElementId} {id c x y : ElementId} {e : Element} {p : Plan}
  {l : KeyedList} {fuel : Nat} {active : Option Case} {hooks : List Unset} {schema : Schema}
  {node : ElementId → Schema}

/-- Either the list holds no entries any more, or everything under it holds what it held. -/
def Shelters (t : Tree) (id : ElementId) (t' : Tree) : Prop :=
  t'.Laden id → ∀ y, t.Under id y → t'.held y = t.held y

theorem shelters_refl (t : Tree) (id : ElementId) : t.Shelters id t := fun _ _ _ => rfl

/-- What is pending is under nothing but itself. -/
theorem Sound.not_under_pending (h : Sound t pending) (hx : x ∈ pending) (hne : x ≠ id) :
    ¬ t.Under id x := by
  intro hu
  obtain ⟨_, _, _, _, _, ha⟩ := h.parent_of_under hu hne
  exact (h.of_above ha).1 hx

/-- What the hooks lead to has a parent that is older than `id`. -/
def LeadOut (t : Tree) (id : ElementId) (hooks : List Unset) : Prop :=
  ∀ ⦃c ce⦄, .contents c ∈ hooks → t.element? c = some ce →
    ∃ q, ce.parent = some q ∧ q.index < id.index

/-- The hooks of the plan of a list lead to children of containers above the list. -/
theorem Follows.leadOut (h : t.Follows schema node) (hs : Sound t pending)
    (hp : ∀ y ∈ pending, id.index < y.index) (he : t.element? id = some e)
    (hl : e.content = .list l) (hplan : t.planFrom fuel id active = .ok p) :
    t.LeadOut id p.unsets := by
  intro c ce hm hc
  obtain ⟨q, qe, k, k', m, hq, hqe, hhas, -, hget, -⟩ := exists_rival_of_planFrom hs hp hplan hm
  obtain ⟨c', hhook, hfield⟩ := hs.unsetter hqe (Assoc.mem_of_get?_eq_some hget)
  obtain rfl := Unset.contents.inj hhook
  refine ⟨q, (hfield.2 ce hc).1, ?_⟩
  have hle := hs.index_le_of_under hq
  by_contra hge
  -- The list itself has no choices.
  obtain rfl : id = q := by
    cases q
    cases id
    simp only [ElementId.mk.injEq]
    simp only at hle hge
    omega
  obtain rfl : e = qe := Option.some.inj (he.symm.trans hqe)
  obtain ⟨n, hmember⟩ := h.member he hhas
  obtain ⟨default, hlist⟩ := h.schema_eq he hl
  rw [hlist] at hmember
  cases hmember

/-- So they do not lead into an entry. -/
theorem LeadOut.eq_of_under (h : t.LeadOut id hooks) (hs : Sound t pending)
    (hm : .contents c ∈ hooks) (hu : t.Under id c) : c = id := by
  by_contra hne
  obtain ⟨ce, d, hce, hpar, hd, -⟩ := hs.parent_of_under hu hne
  obtain ⟨q, hq, hlt⟩ := h hm hce
  obtain rfl : d = q := Option.some.inj (hpar.symm.trans hq)
  have hle := hs.index_le_of_under hd
  omega

theorem LeadOut.shrinks (h : t.LeadOut id hooks) (hs : t.Shrinks t') : t'.LeadOut id hooks := by
  intro c ce' hm hc'
  obtain ⟨ce, hc, hse⟩ := hs.element hc'
  rw [Element.parent_of_bare hse.bare]
  exact h hm hc

/-- Hooks that run while the list is sheltered shelter it if they do not lead into entries. -/
theorem Shelters.run (h : t₀.Shelters id t) (hs₀ : Sound t₀ pending) (hs : Sound t pending)
    (hshrinks : t₀.Shrinks t) (hout : ∀ c, .contents c ∈ hooks → t₀.Under id c → c = id)
    (hladen : t'.Laden id → t.Laden id ∧ t.Free hooks id)
    (hstays : ∀ {y}, t₀.Under id y → t.Free hooks y → t'.held y = t.held y) :
    t₀.Shelters id t' := by
  intro hid y hy
  obtain ⟨hid, hfree⟩ := hladen hid
  rw [hstays hy fun c hm hu => ?_, h hid y hy]
  obtain hc | hc := hs₀.under_or_under (hshrinks.under hu) hy
  · obtain ⟨e, he, -⟩ := hid
    exact hfree c hm (hs₀.under_of_shrinks hs hshrinks (fun _ hx => hx) hc he)
  · obtain rfl := hout c hm hc
    exact hfree c hm .refl

/-- Filling something that is not under the list. -/
theorem Shelters.put (h : t₀.Shelters id t) (hs₀ : Sound t₀ pending) (hs : Sound t pending)
    (hshrinks : t₀.Shrinks t) (hout : ∀ c, .contents c ∈ hooks → t₀.Under id c → c = id)
    (hx : ¬ t₀.Under id x) (hput : Put x hooks pending t t') : t₀.Shelters id t' := by
  have hne : ∀ {y}, t₀.Under id y → y ≠ x := by
    rintro y hy rfl
    exact hx hy
  exact h.run hs₀ hs hshrinks hout (fun hid => (hput.laden_iff (hne .refl)).1 hid) fun hy hfree =>
    hput.stays (hne hy) hfree

/-- What changes nothing that is held under the list. -/
theorem Shelters.same (h : t₀.Shelters id t) (hsame : ∀ y, t₀.Under id y → t'.held y = t.held y) :
    t₀.Shelters id t' := by
  intro hid y hy
  rw [hsame y hy, h ((laden_of_held (hsame id .refl)).1 hid) y hy]

/-- Removing what is pending. -/
theorem Sound.shelters_removeSubtree (h : Sound t pending) (hx : x ∈ pending)
    (hstays : ∀ y, ¬ t.Under x y → t'.element? y = t.element? y) (hid : id.index < x.index) :
    t.Shelters id t' := by
  refine (shelters_refl t id).same fun y hy => held_congr (hstays y fun hu => ?_)
  obtain hu | hu := h.under_or_under hu hy
  · have hle := h.index_le_of_under hu
    omega
  · refine h.not_under_pending hx ?_ hu
    rintro rfl
    exact Nat.lt_irrefl _ hid

/-- Carrying out a plan whose hooks do not lead into entries. -/
theorem Sound.shelters_commit (h : Sound t ∅) (hd : t.Declared)
    (hhooks : ∀ hook ∈ p.unsets, ∃ c, hook = .contents c) (hout : t.LeadOut id p.unsets) :
    (commit p).Ensures t (fun _ => t.Shelters id) fun _ => t.Shelters id := by
  have hran : ∀ {done t'}, done ⊆ p.unsets → Ran done ∅ t t' → t.Shelters id t' := fun hsub hran =>
    (shelters_refl t id).run h h (refl_of Shrinks t) (fun c hm => hout.eq_of_under h (hsub hm))
      (fun hid => (hran.laden_iff id).1 hid) fun _ hfree => held_congr (hran.stays hfree)
  have hrun := (ran_runUnsets h hd hhooks).mono (fun _ _ hr => hran (List.Subset.refl _) hr)
    fun _ t' hf => by
      obtain ⟨done, hsub, hr⟩ := hf
      exact hran hsub hr
  refine hrun.bind fun _ t₁ h₁ => ?_
  exact ((sameData_markChanged p.marks).ensures t₁).mono
    (fun _ _ hsame => h₁.same fun y _ => hsame y) fun _ _ hsame => h₁.same fun y _ => hsame y

end DataTree.Tree
