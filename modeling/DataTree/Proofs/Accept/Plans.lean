import DataTree.Proofs.Atomic.Assign
import DataTree.Proofs.Choice.Apart

/-!
# DataTree.Proofs.Accept.Plans

Whether the plan of a change can be made, and whether it can be carried out.

Whatever belongs to a case has a hook (`Hooked`), so that a plan can always be made
(`exists_plan`).  But hooks are set up once and stay.  Carrying out a plan fails if one
of its hooks leads to an element that was removed since (`Stale`), and it takes the
changed element itself if that is an entry, or part of one, of a list that the plan
empties (`Uproots`).  Otherwise it succeeds (`ensures_runUnsets`, `Ran.gone_iff`).
-/

namespace DataTree.Tree

open Edit Outcome

variable {t t' : Tree} {id b c x y : ElementId} {e : Element} {p : Plan} {hooks : List Unset}
  {fuel : Nat} {active : Option Case}

/-! ## Every member has a hook -/

/-- Whatever is a member of a case has a hook that unsets it. -/
def Hooked (t : Tree) : Prop :=
  ∀ ⦃id e k m⦄, t.element? id = some e → e.choices.Has k m → (Assoc.get? m e.unsetters).isSome

theorem hooked_empty : Hooked {} := by
  intro id e k m he
  simp [element?] at he

/-- The hooks of an element concern nobody else. -/
theorem Hooked.congr (h : t.Hooked) (hel : ∀ {id e'}, t'.element? id = some e' →
    ∃ e, t.element? id = some e ∧ e'.choices = e.choices ∧ e'.unsetters = e.unsetters) :
    t'.Hooked := by
  intro id e' k m he' hk
  obtain ⟨e, he, hc, hu⟩ := hel he'
  rw [hu]
  exact h he (hc ▸ hk)

theorem Hooked.thins (h : t.Hooked) (ht : t.Thins t') : t'.Hooked := by
  refine h.congr fun he' => ?_
  obtain ⟨e, he, hb, -⟩ := ht he'
  exact ⟨e, he, Element.choices_of_bare hb, Element.unsetters_of_bare hb⟩

/-- A new element has neither members nor hooks. -/
theorem Hooked.wrap (h : t.Hooked) (content : Content) (spec : ElementSpec) :
    ((t.link spec).place (t.newElement content spec)).Hooked := by
  intro id e k m he hk
  obtain ⟨-, rfl⟩ | ⟨e₀, he₀, htrunk, -⟩ := made_cases he
  · exact absurd hk (ChoiceTable.not_has_empty k m)
  · rw [Element.unsetters_of_trunk htrunk]
    exact h he₀ (Element.choices_of_trunk htrunk ▸ hk)

/-- A field comes with its hook. -/
theorem Hooked.addField (h : t.Hooked) (id : ElementId) (name : String) (case : Option Case)
    (isLeaf : Bool) (child : ElementId) :
    (t.modifyElement id (addField name case isLeaf child)).Hooked := by
  intro x e k m he hk
  obtain ⟨e₀, he₀, -, ⟨rfl, rfl⟩ | ⟨-, rfl⟩⟩ := addField_cases he
  · show (Assoc.get? m (Assoc.insert name (.contents child) e₀.unsetters)).isSome
    by_cases hm : m = name
    · rw [hm, Assoc.get?_insert_self]
      rfl
    · rw [Assoc.get?_insert_of_ne hm]
      exact h he₀ ((has_of_addField hk).resolve_right fun hnew => hm hnew.2)
  · exact h he₀ hk

theorem buildStable_hooked (registers : Bool) :
    BuildStable (Keeping Hooked) registers (fun _ => True) fun _ => True where
  wrap := fun content spec _ _ _ => leads_wrap fun _ _ h => h.wrap content spec
  field := fun {id name case isLeaf child} _ =>
    leads_update fun _ _ _ h => h.addField id name case isLeaf child
  remove := fun id t h => h.thins (shrinks_removeSubtree id t).thins

theorem hooked_build (schema : Schema) (spec : ElementSpec) :
    Leads (Keeping Hooked) (build schema spec) :=
  (buildStable_hooked spec.registers).build schema spec
    (schema.uses_of_forall (fun _ => trivial) fun _ => trivial) rfl

theorem frameStable_hooked : FrameStable Hooked fun _ => True where
  plan := fun _ _ _ _ => trivial
  unset := fun {hook} _ t h => h.thins (shrinks_runUnset hook t).thins
  same := fun hs h => h.thins hs.shrinks.thins

theorem entryStable_hooked : EntryStable Hooked fun _ => True where
  toAssignStable := frameStable_hooked.assignStable
  build := fun h _ _ => hooked_build _ _ _ h
  remove := fun id t h => h.thins (shrinks_removeSubtree id t).thins
  members := fun {t id f} h _ => by
    rw [updateList_eq]
    refine leads_update (R := Keeping Hooked) (fun t e he h => h.congr fun {x e'} he' => ?_) t h
    obtain ⟨e₀, he₀, rfl | ⟨-, l, -, rfl⟩⟩ := relist_cases he'
    · exact ⟨e', he₀, rfl, rfl⟩
    · exact ⟨e₀, he₀, rfl, rfl⟩
  makeKeys := fun h => h
  tell := fun _ h => h

/-- In a tree of a schema everything that belongs to a case has its hook. -/
theorem hooked_of_evolves {schema : Blueprint} {spec : ElementSpec} (h : Evolves schema spec t) :
    t.Hooked := by
  refine h.keeps (fun t op ht hop => ?_) ?_
  · exact entryStable_hooked.handling frameStable_hooked hop ht
  · exact leads_instantiate (I := Hooked) (fun _ ht => ht)
      (hooked_build schema spec) {} hooked_empty

/-! ## Plans can be made -/

theorem exists_siblingHooks (h : t.Hooked) (he : t.element? x = some e) (active : Option Case) :
    ∃ hooks, siblingHooks e active = .ok hooks := by
  cases active with
  | none => exact ⟨[], rfl⟩
  | some active =>
    refine exists_mapM_eq_ok fun sibling hm => ?_
    obtain ⟨hook, hget⟩ := Option.isSome_iff_exists.1 (h he (ChoiceTable.has_of_mem_siblings hm).1)
    exact ⟨hook, by simp only [hget]⟩

/-- Everything with a way up to the root can be planned for. -/
theorem exists_planFrom {pending : Set ElementId} (hs : Sound t pending) (h : t.Hooked)
    (hpending : ∀ {y ye q}, y ∈ pending → t.element? y = some ye → ye.parent = some q →
      (t.element? q).isSome) (he : t.element? x = some e) (hfuel : x.index < fuel)
    (active : Option Case) : ∃ p, t.planFrom fuel x active = .ok p := by
  induction fuel generalizing x e active with
  | zero => omega
  | succ fuel ih =>
    obtain ⟨hooks, hh⟩ := exists_siblingHooks h he active
    cases hpar : e.parent with
    | none => exact ⟨_, planFrom_succ_eq_ok.2 ⟨e, hooks, he, hh, .inl ⟨hpar, rfl⟩⟩⟩
    | some parent =>
      have hlt := hs.parent_lt he hpar
      obtain ⟨pe, hpe⟩ : ∃ pe, t.element? parent = some pe := by
        by_cases hx : x ∈ pending
        · exact Option.isSome_iff_exists.1 (hpending hx he hpar)
        · obtain ⟨pe, hpe, -⟩ := hs.listed he hpar hx
          exact ⟨pe, hpe⟩
      obtain ⟨above, habove⟩ := ih hpe (by omega) (active.orElse fun _ => e.case)
      exact ⟨_, planFrom_succ_eq_ok.2 ⟨e, hooks, he, hh, .inr ⟨parent, above, hpar, habove, rfl⟩⟩⟩

/-- Every change of an element can be planned. -/
theorem exists_plan (hs : Sound t ∅) (h : t.Hooked) (he : t.element? x = some e) :
    ∃ p, t.plan x none = .ok p :=
  exists_planFrom hs h (fun hy => hy.elim) he (Nat.lt_succ_self _) none

/-- The marks of a plan are those of elements from the changed one up. -/
theorem under_of_mem_marks (hs : Sound t ∅) (hp : t.planFrom fuel x active = .ok p)
    (hm : y ∈ p.marks) : t.Under y x := by
  induction fuel generalizing x active p with
  | zero => cases hp
  | succ fuel ih =>
    obtain ⟨e, hooks, he, -, ⟨-, rfl⟩ | ⟨parent, above, hpar, habove, rfl⟩⟩ :=
      planFrom_succ_eq_ok.1 hp
    · obtain rfl := List.mem_singleton.1 hm
      exact .refl
    · obtain rfl | hm := List.mem_cons.1 hm
      · exact .refl
      · exact (ih habove hm).tail (hs.listed he hpar (Set.notMem_empty x))

/-! ## Plans that cannot be carried out -/

/-- A hook of the plan of `x` leads to an element that is not there any more. -/
def Stale (t : Tree) (x : ElementId) : Prop :=
  ∃ p b, t.plan x none = .ok p ∧ .contents b ∈ p.unsets ∧ t.element? b = none

/-- The plan of `x` empties a list that `x` is an entry of, or under an entry of. -/
def Uproots (t : Tree) (x : ElementId) : Prop :=
  ∃ p k, t.plan x none = .ok p ∧ ¬ t.Free p.unsets k ∧ t.Laden k ∧ t.Under k x ∧ x ≠ k

/-- There is no running hooks of which one leads nowhere. -/
theorem ensures_runUnsets_of_dead (hm : .contents b ∈ hooks) (hb : t.element? b = none) :
    (runUnsets hooks).Ensures t (fun _ _ => False) fun _ _ => True := by
  induction hooks generalizing t with
  | nil => cases hm
  | cons hook hooks ih =>
    show (runUnset hook >>= fun _ => runUnsets hooks).Ensures t _ _
    obtain rfl | hm := List.mem_cons.1 hm
    · rw [ensures_bind, runUnset, ensures_of_error (on_unset_of_none hb)]
      trivial
    · refine ((shrinks_runUnset hook).ensures t).mono (fun _ _ hs => hs)
        (fun _ _ _ => trivial) |>.bind fun _ t₁ hs => ?_
      exact ih hm (hs.element?_eq_none hb)

/-- The hooks of a plan can be run exactly if none is stale. -/
theorem ensures_runUnsets (hs : Sound t ∅) (hd : t.Declared) (hp : t.plan x none = .ok p) :
    (runUnsets p.unsets).Ensures t (fun _ t' => ¬ t.Stale x ∧ Ran p.unsets ∅ t t')
      fun _ _ => t.Stale x := by
  have hgood := (frameStable_sound ∅).plan hs hp
  by_cases hstale : t.Stale x
  · obtain ⟨p', b, hp', hm, hb⟩ := hstale
    obtain rfl : p = p' := Except.ok.inj (hp.symm.trans hp')
    exact (ensures_runUnsets_of_dead hm hb).mono (fun _ _ hf => hf.elim) fun _ _ _ =>
      ⟨p, b, hp, hm, hb⟩
  · have hlive : ∀ hook ∈ p.unsets, ∃ c, hook = .contents c ∧ (t.element? c).isSome := by
      intro hook hm
      obtain ⟨c, rfl⟩ := hgood hook hm
      refine ⟨c, rfl, ?_⟩
      rw [Option.isSome_iff_ne_none]
      exact fun hnone => hstale ⟨p, c, hp, hm, hnone⟩
    have hall := (ensures_runUnsets_of_planFrom hs hd hp hlive).and (ran_of_runUnsets hs hd hgood)
    exact hall.mono (fun _ _ hr => ⟨hstale, hr.2⟩) fun _ _ hf => hf.1.elim

/-- Running hooks takes what is under a list with entries that they empty, and nothing else. -/
theorem Ran.gone_iff (hran : Ran hooks ∅ t t') (hs : Sound t ∅) (hx : (t.element? x).isSome) :
    t'.element? x = none ↔ ∃ k, ¬ t.Free hooks k ∧ t.Laden k ∧ t.Under k x ∧ x ≠ k := by
  refine ⟨hran.gone hx, fun hlost => ?_⟩
  obtain ⟨k, hk, ⟨ke, hke, hdata⟩, hkx, hne⟩ := hlost
  cases hx' : t'.element? x with
  | none => rfl
  | some xe =>
    -- Where the list has no entries any more, nothing is under it.
    have hu := hs.under_of_shrinks hran.sound hran.shrinks (fun _ hm => hm) hkx hx'
    obtain heq | ⟨c, ⟨ke', hke', -⟩, -⟩ := Relation.ReflTransGen.cases_head_iff.1 hu
    · exact absurd heq.symm hne
    obtain ⟨ke₀, hke₀, hse⟩ := hran.shrinks.element hke'
    obtain rfl : ke = ke₀ := Option.some.inj (hke.symm.trans hke₀)
    have hempty : ke'.content.holdsData = false := by
      rw [← Bool.not_eq_true]
      exact fun hdata' => hk ((hran.laden_iff k).1 ⟨ke', hke', hdata'⟩).2
    have hcont : ke'.content ≠ .container := by
      intro hc
      rw [hse.container.1 hc] at hdata
      cases hdata
    have hbelow := hran.sound.below_eq_nil hke' hcont (Content.links_eq_nil hempty)
    exact absurd (eq_of_under_of_below hke' hbelow hu) hne

/-- What a plan marks is still there if the changed element is. -/
theorem Ran.isSome_of_mem_marks (hran : Ran hooks ∅ t t') (hs : Sound t ∅)
    (hp : t.plan x none = .ok p) (hx : (t'.element? x).isSome) (hy : y ∈ p.marks) :
    (t'.element? y).isSome := by
  obtain ⟨xe, hxe⟩ := Option.isSome_iff_exists.1 hx
  have hu :=
    hs.under_of_shrinks hran.sound hran.shrinks (fun _ hm => hm) (under_of_mem_marks hs hp hy) hxe
  obtain rfl | ⟨c, ⟨ye, hye, -⟩, -⟩ := Relation.ReflTransGen.cases_head_iff.1 hu
  · exact hx
  · rw [hye]
    rfl

/-! ## Plans that can -/

/-- While no part of the tree was removed by itself no plan is stale. -/
theorem not_stale_of_grows {schema : Blueprint} {spec : ElementSpec} (hroot : spec.parent = none)
    (h : Grows schema spec t) (x : ElementId) : ¬ t.Stale x := by
  intro hstale
  obtain ⟨p, b, hp, hm, hb⟩ := hstale
  have ho := orderly_of_grows hroot h
  have hall :=
    (ensures_runUnsets_of_dead hm hb).and (ensures_runUnsets_plan ho.sound ho.arranged hp)
  unfold Ensures at hall
  split at hall
  · exact hall.1
  · exact hall.2

/-- Where all choices are apart, the plan of an element leaves it alone. -/
theorem Follows.free_self {schema : Blueprint} {node : ElementId → Schema}
    (h : t.Follows schema node) (hs : Sound t ∅) (ha : schema.root.Apart)
    (hx : t.element? x = some e) (hp : t.plan x none = .ok p) : t.Free p.unsets x := by
  by_contra htaken
  exact h.not_strays hs ha hx (x := x) ⟨p, hp, htaken, h.spared_self hs x⟩

theorem Follows.not_uproots {schema : Blueprint} {node : ElementId → Schema}
    (h : t.Follows schema node) (hs : Sound t ∅) (ha : schema.root.Apart)
    (hx : t.element? x = some e) : ¬ t.Uproots x := by
  intro hup
  obtain ⟨p, k, hp, hk, -, hkx, -⟩ := hup
  exact hk fun c hm hu => h.free_self hs ha hx hp c hm (hu.trans hkx)

end DataTree.Tree
