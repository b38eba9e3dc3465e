import DataTree.Proofs.Accept.Plans

/-!
# DataTree.Proofs.Reset.Idle

Edits that find nothing to do.

Unsetting an element that holds no data leaves the tree as it is, down to the registry and
the events (`Sound.on_unset_of_not_holdsData`).  So does carrying out a plan a second time,
where no choice has the name of another one further up (`Follows.idle_of_commit`,
`Idle.on_commit`): then the plan of an element takes neither the element nor what is above
it, and what it has unset and marked stays so.
-/

namespace DataTree

open Edit Outcome

/-- After a step that succeeds, the rest starts from the tree that it leaves. -/
theorem Edit.on_bind_of_ok {α β : Type} {y : Edit α} {f : α → Edit β} {a : α} {t t' : Tree}
    (h : y.on t = (.ok a, t')) : (y >>= f).on t = (f a).on t' := by
  rw [on_bind, h]

theorem Edit.on_reading_bind_of_ok {α β : Type} {f : Tree → Except Error α} {g : α → Edit β} {a : α}
    {t : Tree} (h : f t = .ok a) : (reading f >>= g).on t = (g a).on t := by
  rw [on_bind, on_reading, h]

/-- Steps that leave the tree as it is, one after another. -/
theorem Edit.on_forM_eq_self {α : Type} {f : α → Edit Unit} {as : List α} {t : Tree}
    (h : ∀ a ∈ as, (f a).on t = (.ok (), t)) : (as.forM f).on t = (.ok (), t) := by
  induction as with
  | nil => rfl
  | cons a as ih =>
    show (f a >>= fun _ => as.forM f).on t = _
    rw [on_bind_of_ok (h a List.mem_cons_self)]
    exact ih fun b hb => h b (List.mem_cons_of_mem a hb)

namespace Tree

variable {t t' : Tree} {pending : Set ElementId} {id b x : ElementId} {e : Element} {p : Plan}
  {schema : Blueprint} {node : ElementId → Schema}

/-- Changing an element into itself. -/
theorem modifyElement_eq_self {f : Element → Element} (h : ∀ e, t.element? id = some e → f e = e) :
    t.modifyElement id f = t := by
  have hslots : t.slots.modify id.index (Option.map f) = t.slots := by
    refine Array.ext_getElem? fun i => ?_
    rw [Array.getElem?_modify]
    split
    · next hi =>
      subst hi
      cases hs : t.slots[id.index]? with
      | none => rfl
      | some o =>
        cases o with
        | none => rfl
        | some e => rw [Option.map_some, Option.map_some, h e (by rw [element?, hs]; rfl)]
    · rfl
  rw [modifyElement, hslots]

theorem on_update_of_some (he : t.element? id = some e) (f : Element → Element) :
    (update id f).on t = (.ok (), t.modifyElement id f) := by
  rw [on_update, element_eq_ok_iff.2 he]

/-! ## Unsetting -/

/-- Clearing what holds no data. -/
theorem on_clear_of_not_laden (he : t.element? x = some e) (hdecl : e.content.IsDeclared)
    (hc : e.content ≠ .container) (hdata : e.content.holdsData = false) :
    (clear x).on t = (.ok (), t) := by
  have hel : t.element x = .ok e := element_eq_ok_iff.2 he
  have hbare := Content.bare_eq_self hdecl hdata
  rw [Tree.clear, on_bind, on_get, hel]
  dsimp only
  split
  · next l hl =>
    have hmembers : l.members = [] := by
      rw [hl] at hdata
      exact Content.links_eq_nil (c := .list l) hdata
    have hsame : (t.modifyElement x fun e =>
        { e with content := .list { l with members := [] } }) = t := by
      refine modifyElement_eq_self fun e' he' => ?_
      obtain rfl : e = e' := Option.some.inj (he.symm.trans he')
      rw [hl] at hbare
      rw [show Content.list { l with members := [] } = e.content from hbare.trans hl.symm]
    have hentries : l.entries = [] := by rw [KeyedList.entries, hmembers]; rfl
    simp only [on_bind, on_update, hel, hsame, hentries]
    rfl
  · next hl =>
    obtain ⟨items, hclear⟩ := Content.clear_eq hdecl hc hl
    have hsame : (t.modifyElement x fun e' => { e' with content := e.content.bare }) = t := by
      refine modifyElement_eq_self fun e' he' => ?_
      obtain rfl : e = e' := Option.some.inj (he.symm.trans he')
      rw [hbare]
    simp only [on_bind, on_ofExcept, hclear, on_update, hel, hsame, on_changing,
      Content.members_eq_nil hdata]
    rfl

/-- **Unsetting what holds no data** changes nothing. -/
theorem Sound.on_unset_of_not_holdsData (h : Sound t pending) (hd : t.Declared)
    (he : t.element? id = some e) (hno : ¬ t.HoldsData id) :
    (Tree.unset id).on t = (.ok (), t) := by
  obtain ⟨hs, hholders, hmem⟩ := holders_spec h he
  rw [Tree.unset, on_bind, on_reading, hholders]
  refine on_forM_eq_self fun x hx => ?_
  obtain ⟨hw, xe, hxe, hc⟩ := (hmem x).1 hx
  refine on_clear_of_not_laden hxe (hd hxe) hc ?_
  rw [← Bool.not_eq_true]
  exact fun hdata => hno ⟨x, hw.under, xe, hxe, hdata⟩

/-- What was unset holds no data. -/
theorem Unsets.not_holdsData (h : Unsets id t t') (hs : Sound t' pending) : ¬ t'.HoldsData id := by
  rw [hs.holdsData_iff]
  rintro ⟨x, hw, hx⟩
  exact h.not_laden hw hx

/-! ## Plans -/

/-- There is nothing to do for a plan: what it unsets holds no data, and what it marks is marked. -/
structure Idle (t : Tree) (p : Plan) : Prop where
  unset : ∀ hook ∈ p.unsets, ∃ b, hook = .contents b ∧ (t.element? b).isSome ∧ ¬ t.HoldsData b
  marked : ∀ y ∈ p.marks, ∃ e, t.element? y = some e ∧ e.changed = true

theorem holdsData_congr (h : t'.slots = t.slots) : t'.HoldsData b ↔ t.HoldsData b := by
  have hunder : t'.Under b = t.Under b := by
    rw [Under, Under]
    congr 1
    funext p c
    rw [Above, Above, element?_congr h]
  simp only [HoldsData, Laden, hunder, element?_congr h]

/-- Registering, unregistering and telling do not concern plans. -/
theorem Idle.of_slots (h : t.Idle p) (hs : t'.slots = t.slots) : t'.Idle p where
  unset := fun hook hm => by
    obtain ⟨b, rfl, hlive, hno⟩ := h.unset hook hm
    exact ⟨b, rfl, by rwa [element?_congr hs], fun hd => hno ((holdsData_congr hs).1 hd)⟩
  marked := fun y hy => by
    obtain ⟨e, he, hc⟩ := h.marked y hy
    exact ⟨e, (element?_congr hs y).trans he, hc⟩

/-- **Carrying out an idle plan** changes nothing. -/
theorem Idle.on_commit (h : t.Idle p) (hs : Sound t pending) (hd : t.Declared) :
    (commit p).on t = (.ok (), t) := by
  have hrun : (runUnsets p.unsets).on t = (.ok (), t) := by
    refine on_forM_eq_self fun hook hm => ?_
    obtain ⟨b, rfl, hlive, hno⟩ := h.unset hook hm
    obtain ⟨be, hbe⟩ := Option.isSome_iff_exists.1 hlive
    exact hs.on_unset_of_not_holdsData hd hbe hno
  have hmark : (markChanged p.marks).on t = (.ok (), t) := by
    refine on_forM_eq_self fun y hy => ?_
    obtain ⟨e, he, hc⟩ := h.marked y hy
    have hsame : (t.modifyElement y fun e => { e with changed := true }) = t := by
      refine modifyElement_eq_self fun e' he' => ?_
      obtain rfl : e = e' := Option.some.inj (he.symm.trans he')
      rw [← hc]
    rw [on_update, element_eq_ok_iff.2 he, hsame]
  rw [commit, on_bind, hrun]
  exact hmark

/-- What has to yield to an element stays, unless the element itself has to go. -/
theorem Yields.isSome_of_ran {hooks : List Unset} (hy : t.Yields x b) (hs : Sound t ∅)
    (hran : Ran hooks ∅ t t') (hfree : t.Free hooks x) : (t'.element? b).isSome := by
  obtain ⟨q, qe, c, ce, k, k', m, hq, hc, hpar, -, hcx, -, -, hm⟩ := hy
  obtain ⟨-, -, be, hbe, hbpar, -⟩ := hs.child hq hm
  rw [Option.isSome_iff_ne_none]
  intro hgone
  obtain ⟨l, hl, -, hlb, hne⟩ := hran.gone (by rw [hbe]; rfl) hgone
  -- The list that was emptied is above `b`, so above its parent, so above `x`.
  obtain ⟨be', q', hbe', hbpar', hlq, -⟩ := hs.parent_of_under hlb hne
  obtain rfl : be = be' := Option.some.inj (hbe.symm.trans hbe')
  obtain rfl : q = q' := Option.some.inj (hbpar.symm.trans hbpar')
  have hqc := hs.listed hc hpar (Set.notMem_empty c)
  exact hl fun d hd hdl => hfree d hd (hdl.trans ((hlq.tail hqc).trans hcx))

/-- Elements that are marked, or have a mark already, have one afterwards. -/
theorem changed_of_markChanged {ids : List ElementId} (h : (markChanged ids).on t = (.ok (), t'))
    (hx : x ∈ ids ∨ ∃ e, t.element? x = some e ∧ e.changed = true) :
    ∃ e, t'.element? x = some e ∧ e.changed = true := by
  induction ids generalizing t with
  | nil =>
    obtain rfl := congrArg Prod.snd h
    exact hx.resolve_left List.not_mem_nil
  | cons id ids ih =>
    have hrun : (update id (fun e => { e with changed := true }) >>= fun _ => markChanged ids).on
        t = (.ok (), t') := h
    rw [on_bind, on_update] at hrun
    cases hid : t.element id with
    | error err =>
      rw [hid] at hrun
      cases hrun
    | ok e =>
      rw [hid] at hrun
      refine ih hrun ?_
      rw [List.mem_cons] at hx
      rw [element?_modifyElement]
      by_cases hxid : x = id
      · rw [if_pos hxid, hxid, element_eq_ok_iff.1 hid]
        exact .inr ⟨_, rfl, rfl⟩
      · rw [if_neg hxid]
        exact hx.imp_left fun hm => hm.resolve_left hxid

/-- **Once is enough**: a plan that was carried out is idle, where all choices are apart. -/
theorem Follows.idle_of_commit (hf : t.Follows schema node) (hs : Sound t ∅)
    (ha : schema.root.Apart) (hx : t.element? x = some e) (hp : t.plan x none = .ok p)
    (h : (commit p).on t = (.ok (), t')) : Sound t' ∅ ∧ t.Shrinks t' ∧ t'.Idle p := by
  have hgood := (frameStable_sound ∅).plan hs hp
  have hfree := hf.free_self hs ha hx hp
  rw [commit, on_bind] at h
  cases hrun : (runUnsets p.unsets).on t with
  | mk r t₁ =>
    cases r with
    | error err =>
      rw [hrun] at h
      cases h
    | ok _ =>
      rw [hrun] at h
      have hmark : (markChanged p.marks).on t₁ = (.ok (), t') := h
      have hframe : t₁.SameFrame t' := by
        have hsame := sameFrame_markChanged p.marks t₁
        rwa [hmark] at hsame
      have hdata : t₁.SameData t' := by
        have hsame := sameData_markChanged p.marks t₁
        rwa [hmark] at hsame
      obtain ⟨h₁, hfades, hempty⟩ := (fades_runUnsets hs hf.declared hgood).of_ok hrun
      have hran := (ran_of_runUnsets hs hf.declared hgood).of_ok hrun
      have hs' := h₁.sameFrame hframe
      refine ⟨hs', trans_of Shrinks hran.shrinks hframe.shrinks, fun hook hm => ?_, fun y hy => ?_⟩
      · obtain ⟨b, rfl⟩ := hgood hook hm
        refine ⟨b, rfl, ?_, ?_⟩
        · have hlive : (t.element? b).isSome := by
            rw [Option.isSome_iff_ne_none]
            intro hnone
            exact ((ensures_runUnsets_of_dead hm hnone).of_ok hrun).elim
          obtain ⟨be, hbe⟩ := Option.isSome_iff_exists.1 hlive
          rw [hframe.isSome]
          exact (hf.yields_of_mem hs ha hp hm hbe).isSome_of_ran hs hran hfree
        · rw [hs'.holdsData_iff]
          rintro ⟨y, hw, hy⟩
          exact hempty hm (hframe.shrinks.thins.within hw) ((laden_of_held (hdata y)).1 hy)
      · exact changed_of_markChanged hmark (.inl hy)

end Tree

end DataTree
