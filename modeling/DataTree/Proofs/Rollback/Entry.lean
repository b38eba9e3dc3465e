import DataTree.Proofs.Accept.Plans
import DataTree.Proofs.Rollback.Alike

/-!
# DataTree.Proofs.Rollback.Entry

Taking an entry back.

When a part of its key is refused, a new entry is removed with all that is in it, and the
marks from the list up are set back.  Nothing else is: neither data that made way for the
key, nor what a reference among the key leaves wrote, nor the marks that this left.  But
that is all that can be left behind: if every element holds what it held, and no mark is
new but for those from the list up, then the tree is what it was, with its registry
(`Fails.unscathed`).  Only a list whose own plan is stale may keep the entry.
-/

namespace DataTree.Tree

open Edit Outcome

variable {t t₁ t₂ t' : Tree} {id entry x y : ElementId} {e : Element} {l : KeyedList}
  {path : String} {n : Nat} {p : Plan} {before : List (ElementId × Bool)}
  {pairs : List (String × String)}

/-- The same elements, with the same data and marks, and the same registry. -/
structure Unscathed (t t' : Tree) : Prop where
  element : ∀ x, t'.element? x = t.element? x
  registry : t'.registry = t.registry

/-- All elements hold what they held, and their marks are as they were, but for those from `id`
up. -/
structure Conserves (id : ElementId) (t t' : Tree) : Prop where
  held : ∀ {x}, (t.element? x).isSome → t'.held x = t.held x
  marked : ∀ {x}, (t.element? x).isSome → ¬ t.Under x id → t'.isMarked x = t.isMarked x

theorem Unscathed.conserves (h : t.Unscathed t') (id : ElementId) : t.Conserves id t' where
  held := fun _ => held_congr (h.element _)
  marked := fun _ _ => by rw [isMarked, h.element, isMarked]

theorem Conserves.isSome (h : Conserves id t t') (hx : (t.element? x).isSome) :
    (t'.element? x).isSome := by
  obtain ⟨e, he⟩ := Option.isSome_iff_exists.1 hx
  obtain ⟨e', he', -⟩ := held_eq_some_iff.1 ((h.held hx).trans (held_eq_some_iff.2 ⟨e, he, rfl⟩))
  rw [he']
  rfl

/-! ## Setting marks back -/

/-- The marks from an element up are those of all that it is under. -/
theorem mem_of_marksFrom {pending : Set ElementId} (h : Sound t pending) {fuel : Nat}
    (hm : t.marksFrom fuel id = .ok before) (hu : t.Under x id) : x ∈ before.map Prod.fst := by
  induction fuel generalizing id before with
  | zero => cases hm
  | succ fuel ih =>
    obtain ⟨e, he, hrest⟩ := marksFrom_succ_eq_ok.1 hm
    by_cases hne : id = x
    · obtain ⟨-, rfl⟩ | ⟨q, above, -, -, rfl⟩ := hrest <;> simp [hne]
    · obtain ⟨e', q, he', hq, hux, -⟩ := h.parent_of_under hu hne
      obtain rfl : e = e' := Option.some.inj (he.symm.trans he')
      obtain ⟨hno, -⟩ | ⟨q', above, hq', ha, rfl⟩ := hrest
      · rw [hq] at hno
        cases hno
      · obtain rfl : q = q' := Option.some.inj (hq.symm.trans hq')
        exact List.mem_cons_of_mem _ (ih ha hux)

/-- Conversely, all marks from an element up are of something that it is under. -/
theorem under_of_mem_marksFrom {pending : Set ElementId} (h : Sound t pending) {fuel : Nat}
    (hlater : ∀ y ∈ pending, id.index < y.index) (hm : t.marksFrom fuel id = .ok before)
    (hx : x ∈ before.map Prod.fst) : t.Under x id := by
  induction fuel generalizing id before with
  | zero => cases hm
  | succ fuel ih =>
    obtain ⟨e, he, ⟨-, rfl⟩ | ⟨q, above, hq, ha, rfl⟩⟩ := marksFrom_succ_eq_ok.1 hm
    · obtain rfl := List.mem_singleton.1 hx
      exact .refl
    · obtain rfl | hx := List.mem_cons.1 hx
      · exact .refl
      · have hlt := h.parent_lt he hq
        exact h.under_of_parent he hq (fun hid => absurd (hlater _ hid) (Nat.lt_irrefl _))
          (ih (fun y hy => Nat.lt_trans hlt (hlater y hy)) ha hx)

/-- Setting marks back succeeds unless an element is gone. -/
theorem ensures_restoreMarks (hn : (before.map Prod.fst).Nodup) :
    (restoreMarks before).Ensures t
      (fun _ t' => (∀ x ∉ before.map Prod.fst, t'.element? x = t.element? x) ∧
        ∀ m ∈ before, t'.isMarked m.1 = m.2)
      fun _ t' => (∀ x ∉ before.map Prod.fst, t'.element? x = t.element? x) ∧
        ∃ m ∈ before, t'.element? m.1 = none := by
  induction before generalizing t with
  | nil => exact ⟨fun _ _ => rfl, fun _ hm => by cases hm⟩
  | cons m rest ih =>
    obtain ⟨x, changed⟩ := m
    obtain ⟨hx, hrest⟩ := List.nodup_cons.1 (List.map_cons (f := Prod.fst) ▸ hn)
    let t₁ := t.modifyElement x fun e => { e with changed }
    have hother : ∀ y ∉ ((x, changed) :: rest).map Prod.fst, y ∉ rest.map Prod.fst ∧
        t₁.element? y = t.element? y := by
      intro y hy
      rw [List.map_cons, List.mem_cons, not_or] at hy
      exact ⟨hy.2, element?_modifyElement_of_ne hy.1 _⟩
    show (update x _ >>= fun _ => restoreMarks rest).Ensures t _ _
    rw [ensures_bind, ensures_update]
    refine ⟨fun e he => ?_, fun hnone => ⟨fun _ _ => rfl, _, List.mem_cons_self, hnone⟩⟩
    refine (ih hrest (t := t₁)).mono (fun _ t' hd => ⟨fun y hy => ?_, fun m hm => ?_⟩)
      fun _ t' hf => ⟨fun y hy => ?_, ?_⟩
    · obtain ⟨hy, hsame⟩ := hother y hy
      rw [hd.1 y hy, hsame]
    · obtain rfl | hm := List.mem_cons.1 hm
      · rw [isMarked, hd.1 x hx, element?_modifyElement_self he]
        rfl
      · exact hd.2 m hm
    · obtain ⟨hy, hsame⟩ := hother y hy
      rw [hf.1 y hy, hsame]
    · obtain ⟨m, hm, hnone⟩ := hf.2
      exact ⟨m, List.mem_cons_of_mem _ hm, hnone⟩

/-! ## Removing the entry -/

/-- A new entry is gone, and marks are set back, unless an element that had one of them is gone. -/
structure TakenBack (entry : ElementId) (before : List (ElementId × Bool))
    (t t' : Tree) : Prop where
  held : ∀ {x : ElementId}, x.index < entry.index → t'.held x = t.held x
  unmarked : ∀ {x : ElementId}, x.index < entry.index → x ∉ before.map Prod.fst →
    t'.element? x = t.element? x
  gone : ∀ {x : ElementId}, entry.index ≤ x.index → t'.element? x = none
  restored : (∀ m ∈ before, (t'.element? m.1).isSome) → ∀ m ∈ before, t'.isMarked m.1 = m.2
  retains : ∀ {x e'}, x.index < entry.index → t'.element? x = some e' →
    ∃ e, t.element? x = some e ∧ e'.bare = e.bare ∧ e'.children = e.children

/-- If the key is refused, the entry is taken back. -/
theorem ensures_tryAssignKey {done : Unit → Tree → Prop} {failed : Error → Tree → Prop}
    (h : (assignKey entry pairs).Ensures t₁ done failed) (hs : Sound t₁ {entry}) (hd : t₁.Declared)
    (hr : t₁.Rooted entry) (hn : (before.map Prod.fst).Nodup) :
    (tryAssignKey entry pairs before).Ensures t₁ done fun _ t' =>
      ∃ err t₂, failed err t₂ ∧ t₁.Retains t₂ ∧ TakenBack entry before t₂ t' := by
  rw [tryAssignKey, ensures_tryCatch]
  have hkeeps := ((frameStable_retains t₁ {entry}).assignStable.assignKey entry pairs).keeps
    ⟨hs, hd, refl_of Retains t₁⟩
  refine (h.and (hkeeps.and ((shrinks_assignKey entry pairs).ensures t₁))).mono (fun _ _ hd => hd.1)
    fun err t₂ hf => ?_
  obtain ⟨hfailed, ⟨hs₂, -, hret⟩, hshrinks⟩ := hf
  have hr₂ : t₂.Rooted entry := hr.shrinks hshrinks
  have hrm :=
    (hs₂.removePending (Set.mem_singleton entry)).and ((shrinks_removeSubtree entry).ensures t₂)
  refine (hrm.mono (fun _ _ hd => hd) fun _ _ hf => hf.1.elim).bind fun _ t₃ h₃ => ?_
  obtain ⟨⟨-, hgone, hstays⟩, hs₃⟩ := h₃
  have hnone : ∀ {x : ElementId}, entry.index ≤ x.index → t₃.element? x = none := by
    intro x hx
    cases hxe : t₂.element? x with
    | none => exact hs₃.element?_eq_none hxe
    | some xe =>
      refine hgone x (under_of_rooted hs₂ hr₂ (fun y hy => ?_) hxe hx)
      rw [Set.mem_singleton_iff.1 hy]
  have hsame : ∀ {x : ElementId}, x.index < entry.index → t₃.element? x = t₂.element? x := by
    intro x hx
    refine hstays x fun hu => ?_
    exact absurd hx (Nat.not_lt.2 (hs₂.index_le_of_under hu))
  have hback : ∀ {t'}, t₃.Shrinks t' → t₃.SameData t' → t₃.Fades t' →
      (∀ x ∉ before.map Prod.fst, t'.element? x = t₃.element? x) →
      ((∀ m ∈ before, (t'.element? m.1).isSome) → ∀ m ∈ before, t'.isMarked m.1 = m.2) →
      ∃ err t₂, failed err t₂ ∧ t₁.Retains t₂ ∧ TakenBack entry before t₂ t' := by
    intro t' hs' hd' hfades hother hrestored
    refine ⟨err, t₂, hfailed, hret, fun hx => ?_,
      fun hx hno => ?_, fun hx => ?_, hrestored, fun hx he' => ?_⟩
    · rw [hd', held_congr (hsame hx)]
    · rw [hother _ hno, hsame hx]
    · exact hs'.element?_eq_none (hnone hx)
    · obtain ⟨e, he, hb, hch⟩ := hfades.retains he'
      exact ⟨e, hsame hx ▸ he, hb, hch⟩
  have hmarks :=
    (ensures_restoreMarks hn (t := t₃)).and (((shrinks_restoreMarks before).ensures t₃).and
    (((sameData_restoreMarks before).ensures t₃).and ((fades_restoreMarks before).ensures t₃)))
  refine (hmarks.mono (fun _ _ hd => hd) fun _ t' hf => ?_).bind fun _ t' hd => ?_
  · obtain ⟨⟨hother, m, hm, hno⟩, hs', hd', hfades⟩ := hf
    refine hback hs' hd' hfades hother fun hall => ?_
    have hsome := hall m hm
    rw [hno] at hsome
    cases hsome
  · obtain ⟨⟨hother, hset⟩, hs', hd', hfades⟩ := hd
    exact hback hs' hd' hfades hother fun _ => hset

/-! ## Carrying out the plan -/

/-- Marking fails if an element is gone. -/
theorem gone_of_markChanged (ids : List ElementId) (t : Tree) :
    (markChanged ids).Ensures t (fun _ _ => True)
      fun _ t' => ∃ x ∈ ids, t'.element? x = none ∧ t.element? x = none := by
  by_cases hall : ∀ x ∈ ids, (t.element? x).isSome
  · exact (ensures_markChanged hall).mono (fun _ _ hd => hd) fun _ _ hf => hf.elim
  · simp only [not_forall] at hall
    obtain ⟨x, hx, hno⟩ := hall
    have hnone := Option.not_isSome_iff_eq_none.1 hno
    refine ((shrinks_markChanged ids).ensures t).mono (fun _ _ _ => trivial) fun _ t' hs =>
      ⟨x, hx, ?_, hnone⟩
    exact hs.element?_eq_none hnone

/-- A plan that can be made can be carried out, unless a hook leads nowhere, or it takes away what
it has to mark. -/
theorem ensures_commit_of_plan (h : Sound t ∅) (hd : t.Declared) (hp : t.plan id none = .ok p) :
    (commit p).Ensures t (fun _ _ => True) fun _ t' =>
      (∃ b, .contents b ∈ p.unsets ∧ t.element? b = none) ∨ ∃ x ∈ p.marks, t'.element? x = none ∧
        ((t.element? x).isSome → ∃ k, ¬ t.Free p.unsets k ∧ t.Laden k ∧ t.Under k x ∧ x ≠ k) := by
  have hgood := (frameStable_sound ∅).plan h hp
  by_cases hlive : ∀ hook ∈ p.unsets, ∃ c, hook = .contents c ∧ (t.element? c).isSome
  · have hall := (ensures_runUnsets_of_planFrom h hd hp hlive).and (ran_of_runUnsets h hd hgood)
    refine (hall.mono (fun _ _ hr => hr.2) fun _ _ hf => hf.1.elim).bind fun _ t₁ hran => ?_
    refine (gone_of_markChanged p.marks t₁).mono (fun _ _ hd => hd) fun _ t' hf => ?_
    obtain ⟨x, hx, hnone', hnone⟩ := hf
    exact .inr ⟨x, hx, hnone', fun hsome => hran.gone hsome hnone⟩
  · simp only [not_forall] at hlive
    obtain ⟨hook, hm, hno⟩ := hlive
    obtain ⟨b, rfl⟩ := hgood hook hm
    refine (ensures_true (commit p) t).mono (fun _ _ _ => trivial) fun _ _ _ => .inl ⟨b, hm, ?_⟩
    rw [← Option.not_isSome_iff_eq_none]
    exact fun hsome => hno ⟨b, rfl, hsome⟩

/-! ## How adding fails -/

/-- The entry of a list has been built, and waits for its key. -/
structure Begun (t : Tree) (id : ElementId) (e : Element) (l : KeyedList) (path : String)
    (entry : ElementId) (before : List (ElementId × Bool)) (t₁ : Tree) : Prop where
  owner : t.element? id = some e
  list : e.content = .list l
  entering : t.Entering id e path entry t₁
  raised : t.Raised (.container l.schema.entry .empty) (entrySpec id e path) entry t₁
  declared : t₁.Declared
  marks : t₁.marks id = .ok before

/-- What there was is there when an entry has just been built. -/
theorem Begun.alike (h : t.Begun id e l path entry before t₁) : Alike t.slots.size t t₁ :=
  alike_of_element fun hx => h.entering.older hx

theorem Begun.index_eq (h : t.Begun id e l path entry before t₁) : entry.index = t.slots.size := by
  rw [h.entering.entry_eq]

/-- The marks from the list up are of what the list was under before. -/
theorem Begun.under_of_mem (h : t.Begun id e l path entry before t₁)
    (hx : x ∈ before.map Prod.fst) :
    t.Under x id := by
  have hid := index_lt_of_element? h.owner
  refine h.alike.symm.under h.entering.sound hid
    (under_of_mem_marksFrom h.entering.sound ?_ h.marks hx)
  intro y hy
  rw [Set.mem_singleton_iff.1 hy, h.index_eq]
  exact hid

/-- How adding an entry fails, if `A` holds once its key was assigned: it stops before anything
happens, the key is refused and the entry is taken back, the list is gone, or the plan of the list
cannot be carried out in the end. -/
inductive Fails (A : Tree → Prop) (t : Tree) (id : ElementId) (t' : Tree) : Prop
  | stopped (h : t.Unscathed t')
  | refused {e : Element} {l : KeyedList} {path : String} {entry : ElementId}
      {before : List (ElementId × Bool)}
      {t₁ t₂ : Tree} (h : t.Begun id e l path entry before t₁) (hA : A t₂)
      (hret : t₁.Retains t₂) (hback : TakenBack entry before t₂ t')
      (hacc : t'.Accounts t.slots.size) (hsaves : Saves t.slots.size t t')
  | lost {e : Element} {l : KeyedList} {path : String} {entry : ElementId}
      {before : List (ElementId × Bool)}
      {t₁ : Tree} (h : t.Begun id e l path entry before t₁) (hA : A t')
      (hnone : t'.element? id = none)
  | stuck {e : Element} {l : KeyedList} {path key : String} {entry : ElementId}
      {before : List (ElementId × Bool)} {t₁ t₂ : Tree} {p : Plan}
      (h : t.Begun id e l path entry before t₁)
      (hA : A t₂) (hret : t₁.Retains t₂) (hp : t.plan id none = .ok p)
      (hs : Sound (t₂.enlisted id l key entry) ∅)
      (hshrinks : (t₂.enlisted id l key entry).Shrinks t')
      (hstuck : (∃ b, .contents b ∈ p.unsets ∧ (t₂.enlisted id l key entry).element? b = none) ∨
        ∃ x ∈ p.marks, t'.element? x = none ∧ (((t₂.enlisted id l key entry).element? x).isSome →
          ∃ k, ¬ (t₂.enlisted id l key entry).Free p.unsets k ∧
            (t₂.enlisted id l key entry).Laden k ∧ (t₂.enlisted id l key entry).Under k x ∧ x ≠ k))

/-- Adding an entry either succeeds or fails in one of these ways. -/
theorem ensures_fails {A : Tree → Prop} (hs : Sound t ∅) (hd : t.Declared)
    (hacc : t.Accounts t.slots.size) (key : Option String)
    (hassign : ∀ {e l path entry before t₁} (parts : List String),
      t.Begun id e l path entry before t₁ →
      (assignKey entry (l.schema.key.fields.zip parts)).Ensures t₁ (fun _ => A) fun _ => A) :
    (addEntry id key).Ensures t (fun _ _ => True) fun _ => t.Fails A id := by
  have hsaves : ∀ {α : Type} {x : Edit α},
      Leads (Given (Accounts · t.slots.size) (Saves t.slots.size)) x →
      x.Ensures t (fun _ t' => t'.Accounts t.slots.size ∧ Saves t.slots.size t t')
        fun _ t' => t'.Accounts t.slots.size ∧ Saves t.slots.size t t' := fun hx =>
    (hx.ensures t).mono (fun _ _ hd => hd hacc) fun _ _ hf => hf hacc
  refine ensures_addEntry (fun _ => .stopped ⟨fun _ => rfl, rfl⟩)
    fun {p e l key' parts path} hp he hl hkey => ?_
  have hdistinct : (Schema.container l.schema.entry .empty).Distinct :=
    Schema.distinct_container.2 (hs.distinct he hl)
  have hbuild := (((ensures_buildEntry hs he hl).and (raised_build _ _ t)).and
    (laid_build _ hdistinct hs (fits_entrySpec he hl path))).and
    (hsaves (saves_accounts (accounts_build _ _) (saves_build _ _)))
  refine hbuild.mono (fun entry t₁ hb => ?_) fun _ t' hf => ?_
  · obtain ⟨⟨⟨hent, hraised⟩, hlaid⟩, hacc₁, hsaves₁⟩ := hb
    obtain ⟨before, hbefore⟩ := hent.exists_marks he
    obtain ⟨hrec, -⟩ := recorded_of_marksFrom hent.sound.parent_lt hbefore
    have hdeclared : t₁.Declared := by
      intro x xe hxe
      by_cases hx : x.index < t.slots.size
      · exact hd (hent.older hx ▸ hxe)
      · refine (hlaid.arranged ?_).declared hxe
        rw [hent.entry_eq]
        exact Nat.le_of_not_lt hx
    have hbegun : t.Begun id e l path entry before t₁ := ⟨he, hl, hent, hraised, hdeclared, hbefore⟩
    refine ⟨fun err herr => ?_, fun before' hbefore' => ?_⟩
    · rw [hbefore] at herr
      cases herr
    obtain rfl : before = before' := Except.ok.inj (hbefore.symm.trans hbefore')
    have hkeeps := ((frameStable_retains t₁ {entry}).assignStable.assignKey entry
      (l.schema.key.fields.zip parts)).keeps ⟨hent.sound, hdeclared, refl_of Retains t₁⟩
    have hassigned := ((hassign parts hbegun).and hkeeps).and
      ((shrinks_assignKey entry (l.schema.key.fields.zip parts)).ensures t₁)
    have hsaved : Leads (Given (Accounts · t.slots.size) (Saves t.slots.size))
        (tryAssignKey entry (l.schema.key.fields.zip parts) before) :=
      saves_accounts (entryStable_accounts.tryAssignKey _ _ _) (saves_tryAssignKey _ _ _)
    have htry := (ensures_tryAssignKey hassigned hent.sound hdeclared hent.rooted
      (hrec.older.imp fun h heq => by simp [heq] at h)).and (hsaved.ensures t₁)
    refine htry.mono (fun _ t₂ h₂ => ⟨fun hnone => ?_, fun e₂ he₂ => ?_⟩) fun _ t' hf => ?_
    · exact .lost hbegun h₂.1.1.1 hnone
    · obtain ⟨⟨⟨hA, hs₂, hd₂, hret⟩, hshrinks⟩, -⟩ := h₂
      have hretains := retains_enlisted t₂ id l key' entry
      have hsound := hent.sound_enlisted hl hkey hshrinks hs₂ he₂
      have hbare :=
        ((hbegun.alike.bareTo (index_lt_of_element? he)).trans (hret.thins.bareTo id)).trans
        (hretains.thins.bareTo id)
      have hp' := planFrom_of_bare hsound hbare
        (by rw [element?_enlisted, isSome_element?_modifyElement, he₂]; rfl)
        (fun _ hy => hy.elim) hp
      refine ((ensures_commit_of_plan hsound (hd₂.retains hretains) hp').and
        ((shrinks_commit p).ensures _)).mono (fun _ _ _ => trivial) fun _ t' hf => ?_
      exact .stuck hbegun hA hret hp hsound hf.2 hf.1
    · obtain ⟨⟨err, t₂, ⟨⟨hA, -⟩, -⟩, hret, hback⟩, hsaves'⟩ := hf
      obtain ⟨hacc', hsaves'⟩ := hsaves' hacc₁
      exact .refused hbegun hA hret hback hacc' (trans_of (Saves t.slots.size) hsaves₁ hsaves')
  · obtain ⟨⟨⟨⟨-, hrestores⟩, -⟩, -⟩, hacc', hsaves'⟩ := hf
    refine .stopped ⟨hrestores.element, ?_⟩
    rw [← hacc'.before_registry fun x hx =>
      (hrestores.element x).trans (element?_eq_none_of_size_le hx),
      hsaves'.registry (covers_of_element fun _ => hrestores.element _),
      hacc.before_registry fun _ hx => element?_eq_none_of_size_le hx]

/-! ## Nothing else is left -/

/-- Taking all new elements away leaves nothing behind if data and marks are conserved. -/
theorem Conserves.unscathed (hc : t.Conserves id t') (hacc : t.Accounts t.slots.size)
    (hacc' : t'.Accounts t.slots.size) (hsaves : Saves t.slots.size t t')
    (hret : ∀ {x e'}, x.index < t.slots.size → t'.element? x = some e' →
      ∃ e, t.element? x = some e ∧ e'.bare = e.bare ∧ e'.children = e.children)
    (hgone : ∀ {x : ElementId}, t.slots.size ≤ x.index → t'.element? x = none)
    (hmarks : ∀ {x}, (t.element? x).isSome → t.Under x id → t'.isMarked x = t.isMarked x) :
    t.Unscathed t' := by
  constructor
  case element =>
    intro x
    by_cases hx : x.index < t.slots.size
    · cases he' : t'.element? x with
      | none =>
        by_contra hne
        have hsome := hc.isSome (Option.isSome_iff_ne_none.2 (Ne.symm hne))
        rw [he'] at hsome
        cases hsome
      | some e' =>
        obtain ⟨e, he, hb, hch⟩ := hret hx he'
        have hsome : (t.element? x).isSome := by
          rw [he]
          rfl
        have hcontent : e'.content = e.content := by
          have hheld := hc.held hsome
          rw [Tree.held, Tree.held, he, he', Option.map_some, Option.map_some] at hheld
          exact Option.some.inj hheld
        have hchanged : e'.changed = e.changed := by
          rw [← isMarked_eq he', ← isMarked_eq he]
          by_cases hu : t.Under x id
          · exact hmarks hsome hu
          · exact hc.marked hsome hu
        rw [he, Element.eq_of_unmarked (Element.unmarked_eq_iff.2 ⟨hb, hch, hcontent⟩) hchanged]
    · rw [hgone (Nat.not_lt.1 hx), element?_eq_none_of_size_le (Nat.not_lt.1 hx)]
  case registry =>
    have hcovers : Covers t.slots.size t t' :=
      { isSome := fun _ hs => hc.isSome hs
        stocked := fun {x} _ hs => by
          refine (stocked_of_held (hc.held ?_)).2 hs
          obtain ⟨e, he, -⟩ := hs
          rw [he]
          rfl }
    rw [← hacc'.before_registry fun _ hx => hgone hx, hsaves.registry hcovers,
      hacc.before_registry fun _ hx => element?_eq_none_of_size_le hx]

/-- **What a failed add leaves behind**: if all elements hold what they held, and no mark is
another but for those from the list up, then nothing is. -/
theorem Fails.unscathed {A : Tree → Prop} (h : t.Fails A id t') (hs : Sound t ∅)
    (hacc : t.Accounts t.slots.size) (hfresh : ¬ t.Stale id) (hc : t.Conserves id t') :
    t.Unscathed t' := by
  cases h with
  | stopped h => exact h
  | lost h hA hnone =>
    have hsome := hc.isSome (x := id) (by rw [h.owner]; rfl)
    rw [hnone] at hsome
    cases hsome
  | @refused e l path entry before t₁ t₂ h hA hret hback hacc' hsaves =>
    have hsize := h.index_eq
    obtain ⟨hrec, hle⟩ := recorded_of_marksFrom h.entering.sound.parent_lt h.marks
    refine hc.unscathed hacc hacc' hsaves (fun {x e'} hx he' => ?_)
      (fun {x} hx => hback.gone (hsize ▸ hx)) fun {x} hx hu => ?_
    · obtain ⟨e₂, he₂, hb₂, hch₂⟩ := hback.retains (hsize.symm ▸ hx) he'
      obtain ⟨e₁, he₁, hb₁, hch₁⟩ := hret he₂
      exact ⟨e₁, h.entering.older hx ▸ he₁, hb₂.trans hb₁, hch₂.trans hch₁⟩
    · have hlt : x.index < t.slots.size := by
        obtain ⟨xe, hxe⟩ := Option.isSome_iff_exists.1 hx
        exact index_lt_of_element? hxe
      have hu₁ := h.alike.under hs (index_lt_of_element? h.owner) hu
      obtain ⟨m, hm, rfl⟩ := List.mem_map.1 (mem_of_marksFrom h.entering.sound h.marks hu₁)
      have hchanged : t.isMarked m.1 = m.2 := by
        obtain ⟨me, hme, hset⟩ := hrec.marks m hm
        rw [isMarked_eq (h.entering.older hlt ▸ hme), hset]
      rw [hchanged]
      refine hback.restored (fun m' hm' => hc.isSome ?_) m hm
      obtain ⟨me, hme, -⟩ := hrec.marks m' hm'
      have hlt' :=
        Nat.lt_of_le_of_lt (hle _ (List.mem_map_of_mem hm')) (index_lt_of_element? h.owner)
      rw [← h.entering.older hlt', hme]
      rfl
  | stuck h hA hret hp hs₃ hshrinks hstuck =>
    -- What is gone in the end was there before.
    exfalso
    obtain ⟨b, hm, hnone⟩ | ⟨x, hx, hnone, -⟩ := hstuck
    · have hsome : (t.element? b).isSome := by
        rw [Option.isSome_iff_ne_none]
        exact fun hb => hfresh ⟨_, b, hp, hm, hb⟩
      have hsome' := hc.isSome hsome
      rw [hshrinks.element?_eq_none hnone] at hsome'
      cases hsome'
    · obtain ⟨xe, hxe⟩ := exists_of_mem_marks hp hx
      have hsome := hc.isSome (x := x) (by rw [hxe]; rfl)
      rw [hnone] at hsome
      cases hsome

end DataTree.Tree
