import DataTree.Proofs.Choice.Shadow

/-!
# DataTree.Proofs.Choice.Plan

What the plan of a change unsets, and that it can be carried out.

The plan climbs along the way up from the changed element, and at every container on
it looks for the siblings of the first case on the way so far.  Where no choice is
shadowed these are all rivals of the element (`mem_unsets_of_rival`).  Unsetting one
of them leaves the containers above alone, and so the hooks that come after it
(`ensures_runUnsets_plan`).
-/

namespace DataTree.Tree

open Edit Outcome

variable {t t' : Tree} {pending : Set ElementId} {id b c x y : ElementId} {e : Element}
  {fuel : Nat} {active : Option Case} {p : Plan}

/-! ## The same plan on another tree -/

theorem siblingHooks_of_bare {e' : Element} (h : e'.bare = e.bare) (active : Option Case) :
    siblingHooks e' active = siblingHooks e active := by
  cases active with
  | none => rfl
  | some k =>
    rw [siblingHooks, siblingHooks, Element.choices_of_bare h, Element.unsetters_of_bare h]

/-- Up to the slot `x`, what is there differs in data, links and marks only. -/
def BareTo (t : Tree) (x : ElementId) (t' : Tree) : Prop :=
  ∀ ⦃y e'⦄, y.index ≤ x.index → t'.element? y = some e' →
    ∃ e, t.element? y = some e ∧ e'.bare = e.bare

theorem Thins.bareTo (h : t.Thins t') (x : ElementId) : t.BareTo x t' := by
  intro y e' _ he'
  obtain ⟨e, he, hb, -⟩ := h he'
  exact ⟨e, he, hb⟩

theorem BareTo.trans {t'' : Tree} (h : t.BareTo x t') (h' : t'.BareTo x t'') : t.BareTo x t'' := by
  intro y e'' hy he''
  obtain ⟨e', he', hb'⟩ := h' hy he''
  obtain ⟨e, he, hb⟩ := h hy he'
  exact ⟨e, he, hb'.trans hb⟩

/-- A plan does not depend on data, links and marks, as long as the elements above are
there. -/
theorem planFrom_of_bare (h' : Sound t' pending) (hb : t.BareTo x t')
    (hx : (t'.element? x).isSome) (hp : ∀ y ∈ pending, x.index < y.index)
    (hplan : t.planFrom fuel x active = .ok p) : t'.planFrom fuel x active = .ok p := by
  induction fuel generalizing x active p with
  | zero => cases hplan
  | succ fuel ih =>
    obtain ⟨e', he'⟩ := Option.isSome_iff_exists.1 hx
    obtain ⟨e, he, heb⟩ := hb (Nat.le_refl _) he'
    obtain ⟨e₁, hooks, he₁, hh, hrest⟩ := planFrom_succ_eq_ok.1 hplan
    obtain rfl : e = e₁ := Option.some.inj (he.symm.trans he₁)
    refine planFrom_succ_eq_ok.2 ⟨e', hooks, he', ?_, ?_⟩
    · rw [siblingHooks_of_bare heb, hh]
    · rw [Element.parent_of_bare heb, Element.case_of_bare heb]
      refine hrest.imp_right fun habove => ?_
      obtain ⟨parent, above, hpar, ha, rfl⟩ := habove
      have hpar' : e'.parent = some parent := by rw [Element.parent_of_bare heb, hpar]
      have hlt := h'.parent_lt he' hpar'
      have hnot : x ∉ pending := fun hm => Nat.lt_irrefl _ (hp x hm)
      obtain ⟨pe, hpe, -⟩ := h'.listed he' hpar' hnot
      refine ⟨parent, above, hpar, ih (fun _ _ hy => hb (by omega)) (by rw [hpe]; rfl)
        (fun y hy => Nat.lt_trans hlt (hp y hy)) ha, rfl⟩

/-! ## What a plan covers -/

/-- The part of a plan that is made from the parent up. -/
theorem exists_planFrom_parent {q : ElementId} (hp : t.planFrom fuel x active = .ok p)
    (he : t.element? x = some e) (hpar : e.parent = some q) :
    ∃ fuel' above, t.planFrom fuel' q (active.orElse fun _ => e.case) = .ok above ∧
      above.unsets ⊆ p.unsets := by
  cases fuel with
  | zero => cases hp
  | succ fuel =>
    obtain ⟨e', hooks, he', -, ⟨hroot, -⟩ | ⟨parent, above, hparent, ha, rfl⟩⟩ :=
      planFrom_succ_eq_ok.1 hp
    · obtain rfl : e = e' := Option.some.inj (he.symm.trans he')
      rw [hpar] at hroot
      cases hroot
    · obtain rfl : e = e' := Option.some.inj (he.symm.trans he')
      obtain rfl : q = parent := Option.some.inj (hpar.symm.trans hparent)
      exact ⟨fuel, above, ha, fun _ hm => List.mem_append_right _ hm⟩

/-- The part of a plan that is made further up the way. -/
theorem exists_planFrom_of_route (h : Sound t pending) {d : Option Case} (hr : t.Route x c d)
    (hp : t.planFrom fuel x none = .ok p) :
    ∃ fuel' active p', t.planFrom fuel' c active = .ok p' ∧ p'.unsets ⊆ p.unsets ∧
      ∀ {ce}, t.element? c = some ce → (active.orElse fun _ => ce.case) = d := by
  induction hr with
  | here hx =>
    refine ⟨fuel, none, p, hp, fun _ hm => hm, fun hce => ?_⟩
    rw [Option.some.inj (hce.symm.trans hx)]
    rfl
  | @up c q d name pe _ hq hm ih =>
    obtain ⟨fuel', active, p', hp', hsub, hd⟩ := ih
    obtain ⟨-, -, ce, hce, hpar, -⟩ := h.child hq hm
    obtain ⟨fuel'', above, ha, hsub'⟩ := exists_planFrom_parent hp' hce hpar
    rw [hd hce] at ha
    refine ⟨fuel'', d, above, ha, fun _ hm => hsub (hsub' hm), fun hqe => ?_⟩
    rw [Option.some.inj (hqe.symm.trans hq)]

/-- The hooks of the siblings are those of the children of their names. -/
theorem mem_of_siblingHooks (h : Sound t pending) (hat : t.ArrangedAt id)
    (he : t.element? id = some e) {near k : Case} {m : String} {hooks : List Unset}
    (hh : siblingHooks e (some near) = .ok hooks) (hk : e.choices.Has k m) (hnear : near.Rivals k)
    (hm : (m, b) ∈ e.children) : .contents b ∈ hooks := by
  obtain ⟨hook, hhook, hget⟩ := exists_mem_of_mapM hh (ChoiceTable.mem_siblings hk hnear)
  have hkeys : (Assoc.keys e.unsetters).Nodup := by
    have hnames := h.names he
    rw [Assoc.keys] at hnames
    rw [hat.hooks he, Assoc.keys, List.map_map]
    exact hnames
  have hmem : (m, Unset.contents b) ∈ e.unsetters := by
    rw [hat.hooks he]
    exact List.mem_map_of_mem (f := fun m : String × ElementId => (m.1, Unset.contents m.2)) hm
  simp only [Assoc.get?_eq_some_of_mem hkeys hmem] at hget
  rw [Except.ok.inj hget]
  exact hhook

/-- The hooks of siblings are those of the members of rival cases. -/
theorem exists_rival_of_siblingHooks {hooks : List Unset} {hook : Unset}
    (h : siblingHooks e active = .ok hooks) (hm : hook ∈ hooks) :
    ∃ k k' m, active = some k ∧ e.choices.Has k' m ∧ k.Rivals k' ∧
      Assoc.get? m e.unsetters = some hook := by
  cases active with
  | none =>
    obtain rfl := Except.ok.inj h
    cases hm
  | some near =>
    obtain ⟨⟨case, member⟩, hsib, hget⟩ := mem_of_mapM h hm
    obtain ⟨hhas, hrivals⟩ := ChoiceTable.has_of_mem_siblings hsib
    refine ⟨near, ⟨near.choice, case⟩, member, rfl, hhas, hrivals, ?_⟩
    cases hg : Assoc.get? member e.unsetters with
    | none => simp [hg] at hget
    | some hook' => simpa [hg] using hget

/-- Every sibling of the case that arrives at a container is unset. -/
theorem mem_unsets_of_route (h : Sound t pending) (ha : t.Arranged) {near k : Case}
    {m m' : String} (he : t.element? id = some e) (hm : (m, c) ∈ e.children)
    (hr : t.Route x c (some near)) (hk : e.choices.Has k m') (hnear : near.Rivals k)
    (hm' : (m', b) ∈ e.children) (hp : t.planFrom fuel x none = .ok p) :
    .contents b ∈ p.unsets := by
  obtain ⟨fuel', active, p', hp', hsub, hd⟩ := exists_planFrom_of_route h hr hp
  obtain ⟨-, -, ce, hce, hpar, -⟩ := h.child he hm
  obtain ⟨fuel'', above, habove, hsub'⟩ := exists_planFrom_parent hp' hce hpar
  rw [hd hce] at habove
  cases fuel'' with
  | zero => cases habove
  | succ fuel'' =>
    obtain ⟨e', hooks, he', hh, hrest⟩ := planFrom_succ_eq_ok.1 habove
    obtain rfl : e = e' := Option.some.inj (he.symm.trans he')
    refine hsub (hsub' ?_)
    have hhook := mem_of_siblingHooks h (ha id) he hh hk hnear hm'
    obtain ⟨-, rfl⟩ | ⟨-, -, -, -, rfl⟩ := hrest
    · exact hhook
    · exact List.mem_append_left _ hhook

/-- **Coverage**: where no choice is shadowed, the plan of a change unsets all rivals of the
changed element. -/
theorem mem_unsets_of_rival (h : Sound t pending) (ha : t.Arranged) (hu : t.Unshadowed)
    (hx : t.element? x = some e) (hc : e.content ≠ .container) (hr : t.Rival x b)
    (hp : t.planFrom fuel x none = .ok p) : .contents b ∈ p.unsets := by
  obtain ⟨id, pe, k, k', m, m', c, hpe, hk, hk', hkk, hm, hm', hw⟩ := hr
  obtain ⟨d, hd⟩ := exists_route hx hw
  obtain ⟨near, rfl, hnear⟩ := (hu id).member hpe hk hk' hkk hm hm' hd hx hc
  exact mem_unsets_of_route h ha hpe hm hd hk' hnear hm' hp

/-! ## Carrying out a plan -/

/-- There is nothing to unset where there is no element. -/
theorem on_unset_of_none (h : t.element? id = none) :
    (unset id).on t = (.error (.elementNotFound id), t) := by
  have hholders : t.holders id = .error (.elementNotFound id) := by
    rw [holders]
    cases t.slots.size with
    | zero => rfl
    | succ fuel =>
      rw [holdersFrom, bind_eq_error]
      exact .inl (element_eq_error_iff.2 ⟨h, rfl⟩)
  rw [unset, on_bind, on_reading, hholders]

/-- Unsetting lets data fade, and what was unset holds none; it fails only where there is
no element. -/
theorem fades_unset (h : Sound t pending) (hd : t.Declared) (id : ElementId) :
    (unset id).Ensures t
      (fun _ t' => Sound t' pending ∧ t.Fades t' ∧ ∀ {x}, t'.Within id x → ¬ t'.Laden x)
      fun _ t' => t' = t ∧ t.element? id = none := by
  cases he : t.element? id with
  | none =>
    rw [ensures_of_error (on_unset_of_none he)]
    exact ⟨rfl, rfl⟩
  | some e =>
    refine ((h.unset hd he).and ((sound_unset pending id).ensures t)).mono (fun _ t' hpost => ?_)
      fun _ _ hf => hf.1.elim
    exact ⟨hpost.2 h, hpost.1.fades, hpost.1.not_laden⟩

/-- Hooks that unset contents let data fade, and if all of them succeed then what they
unset holds none. -/
theorem fades_runUnsets {hooks : List Unset} (h : Sound t pending) (hd : t.Declared)
    (hh : ∀ hook ∈ hooks, ∃ c, hook = .contents c) :
    (runUnsets hooks).Ensures t
      (fun _ t' => Sound t' pending ∧ t.Fades t' ∧
        ∀ {c x}, .contents c ∈ hooks → t'.Within c x → ¬ t'.Laden x)
      fun _ t' => Sound t' pending ∧ t.Fades t' := by
  induction hooks generalizing t with
  | nil => exact ⟨h, refl_of Fades t, fun hm => by cases hm⟩
  | cons hook hooks ih =>
    obtain ⟨c, rfl⟩ := hh _ List.mem_cons_self
    show (unset c >>= fun _ => runUnsets hooks).Ensures t _ _
    refine ((fades_unset h hd c).mono (fun _ _ hp => hp) fun _ t' hf => ?_).bind fun _ t₁ h₁ => ?_
    · rw [hf.1]
      exact ⟨h, refl_of Fades t⟩
    · obtain ⟨h₁, hf₁, hempty⟩ := h₁
      have hd₁ : t₁.Declared := hd.retains hf₁.retains
      refine (ih h₁ hd₁ fun hook hm => hh hook (List.mem_cons_of_mem _ hm)).mono (fun _ t₂ h₂ => ?_)
        fun _ t₂ h₂ => ⟨h₂.1, trans_of Fades hf₁ h₂.2⟩
      obtain ⟨h₂, hf₂, hrest⟩ := h₂
      refine ⟨h₂, trans_of Fades hf₁ hf₂, fun {d x} hm hw hx => ?_⟩
      obtain hm | hm := List.mem_cons.1 hm
      · obtain rfl := Unset.contents.inj hm
        exact hempty (hf₂.thins.within hw) (hf₂.laden hx)
      · exact hrest hm hw hx

/-- Of two elements one has a parent that is not further down than that of the other, so it is
not under the other one. -/
theorem Sound.eq_of_under (h : Sound t pending) {q d : ElementId} (hle : q.index ≤ d.index)
    (hb : ∀ be, t.element? b = some be → be.parent = some q)
    (hc : ∀ ce, t.element? c = some ce → ce.parent = some d) (hu : t.Under c b) : b = c := by
  by_contra hne
  obtain ⟨be, p, hbe, hpar, hcp, -⟩ := h.parent_of_under hu hne
  obtain rfl : q = p := Option.some.inj ((hb be hbe).symm.trans hpar)
  obtain ⟨ce, hce⟩ : ∃ ce, t.element? c = some ce := by
    obtain heq | ⟨d', ⟨ce, hce, -⟩, -⟩ := Relation.ReflTransGen.cases_head_iff.1 hu
    · exact absurd heq.symm hne
    · exact ⟨ce, hce⟩
  have hlt := h.parent_lt hce (hc ce hce)
  have hle' := h.index_le_of_under hcp
  omega

/-- Where the second hook leads is not under where the first one leads. -/
def Clear (t : Tree) (first second : Unset) : Prop :=
  ∀ c b, first = .contents c → second = .contents b → t.Under c b → b = c

/-- What a plan unsets first is further down than what it unsets later. -/
theorem clear_of_planFrom (h : Sound t pending) (hplan : t.planFrom fuel x active = .ok p) :
    p.unsets.Pairwise t.Clear := by
  -- Every hook leads to a field of an element from `x` up.
  suffices hall : p.unsets.Pairwise t.Clear ∧ ∀ c, .contents c ∈ p.unsets →
      ∃ q, q.index ≤ x.index ∧ ∀ ce, t.element? c = some ce → ce.parent = some q from hall.1
  induction fuel generalizing x active p with
  | zero => cases hplan
  | succ fuel ih =>
    obtain ⟨e, hooks, he, hh, hrest⟩ := planFrom_succ_eq_ok.1 hplan
    have hown : ∀ c, .contents c ∈ hooks → ∀ ce, t.element? c = some ce → ce.parent = some x := by
      intro c hm ce hce
      obtain ⟨field, hget⟩ := mem_unsetters_of_siblingHooks hh hm
      obtain ⟨c', hhook, hfield⟩ := h.unsetter he (Assoc.mem_of_get?_eq_some hget)
      obtain rfl := Unset.contents.inj hhook
      exact (hfield.2 ce hce).1
    have hclear : hooks.Pairwise t.Clear := by
      refine List.pairwise_of_forall_mem_list fun first hf second hs c b hc hb hu => ?_
      exact h.eq_of_under (Nat.le_refl _) (hown b (hb ▸ hs)) (hown c (hc ▸ hf)) hu
    obtain ⟨-, rfl⟩ | ⟨parent, above, hpar, habove, rfl⟩ := hrest
    · exact ⟨hclear, fun c hm => ⟨x, Nat.le_refl _, hown c hm⟩⟩
    · obtain ⟨hup, hfields⟩ := ih habove
      have hlt := h.parent_lt he hpar
      refine ⟨List.pairwise_append.2 ⟨hclear, hup, fun first hf second hs c b hc hb hu => ?_⟩,
        fun c hm => ?_⟩
      · obtain ⟨q, hq, hfield⟩ := hfields b (hb ▸ hs)
        exact h.eq_of_under (Nat.le_of_lt (Nat.lt_of_le_of_lt hq hlt)) hfield (hown c (hc ▸ hf)) hu
      · obtain hm | hm := List.mem_append.1 hm
        · exact ⟨x, Nat.le_refl _, hown c hm⟩
        · obtain ⟨q, hq, hfield⟩ := hfields c hm
          exact ⟨q, Nat.le_of_lt (Nat.lt_of_le_of_lt hq hlt), hfield⟩

/-- Hooks that lead to elements can all be run, if none removes what a later one unsets. -/
theorem ensures_runUnsets_of_live {hooks : List Unset} (h : Sound t pending) (hd : t.Declared)
    (hlive : ∀ hook ∈ hooks, ∃ c, hook = .contents c ∧ (t.element? c).isSome)
    (hclear : hooks.Pairwise t.Clear) :
    (runUnsets hooks).Ensures t (fun _ _ => True) fun _ _ => False := by
  induction hooks generalizing t with
  | nil => trivial
  | cons hook hooks ih =>
    obtain ⟨c, rfl, hc⟩ := hlive _ List.mem_cons_self
    obtain ⟨ce, hce⟩ := Option.isSome_iff_exists.1 hc
    obtain ⟨hfirst, hrest⟩ := List.pairwise_cons.1 hclear
    show (unset c >>= fun _ => runUnsets hooks).Ensures t _ _
    have hstep := ((h.unset hd hce).and ((sound_unset pending c).ensures t)).and
      ((shrinks_unset c).ensures t)
    refine (hstep.mono (fun _ _ hp => hp) fun _ _ hf => hf.1.1).bind fun _ t₁ h₁ => ?_
    obtain ⟨⟨hun, h₁⟩, hs⟩ := h₁
    refine ih (h₁ h) (hd.shrinks hs) (fun hook hm => ?_)
      (hrest.imp fun hab d b hd hb hu => hab d b hd hb (hs.under hu))
    obtain ⟨b, rfl, hb⟩ := hlive hook (List.mem_cons_of_mem _ hm)
    refine ⟨b, rfl, ?_⟩
    by_cases hu : t.Under c b
    · obtain rfl := hfirst _ hm c b rfl rfl hu
      rw [hun.within .refl, Option.isSome_map, hb]
    · rw [hun.stays hu, hb]

/-- A plan can be carried out if all its hooks lead to elements. -/
theorem ensures_runUnsets_of_planFrom (h : Sound t pending) (hd : t.Declared)
    (hplan : t.planFrom fuel x active = .ok p)
    (hlive : ∀ hook ∈ p.unsets, ∃ c, hook = .contents c ∧ (t.element? c).isSome) :
    (runUnsets p.unsets).Ensures t (fun _ _ => True) fun _ _ => False :=
  ensures_runUnsets_of_live h hd hlive (clear_of_planFrom h hplan)

/-- The hooks of a plan can all be run while no container has lost a field. -/
theorem ensures_runUnsets_plan (h : Sound t pending) (ha : t.Arranged)
    (hplan : t.planFrom fuel x active = .ok p) :
    (runUnsets p.unsets).Ensures t (fun _ _ => True) fun _ _ => False := by
  refine ensures_runUnsets_of_planFrom h ha.declared hplan fun hook hm => ?_
  obtain ⟨owner, e, field, he, hget⟩ := mem_unsetters_of_planFrom hplan hm
  have hmem := Assoc.mem_of_get?_eq_some hget
  rw [(ha owner).hooks he] at hmem
  obtain ⟨⟨m, c⟩, hmc, heq⟩ := List.mem_map.1 hmem
  obtain ⟨-, -, ce, hce, -⟩ := h.child he hmc
  exact ⟨c, (Prod.mk.inj heq).2.symm, by rw [hce]; rfl⟩

end DataTree.Tree
