import DataTree.Proofs.Choice.Build
import DataTree.Proofs.Choice.Plan
import DataTree.Proofs.Structure.Lists

/-!
# DataTree.Proofs.Choice.Exclusive

What fills an element keeps exclusivity, where no choice is shadowed.

1. Assigning to a leaf carries out the plan first and stores the value then; in between
   nothing but the leaf itself is filled (`settles_setLeaf`).
2. Editing items and adding entries fill the element first and carry out the plan then.
   That cannot fail, so the tree is exclusive again (`orderly_commit`).
-/

namespace DataTree.Tree

open Edit Outcome

variable {t t' : Tree} {pending pending' : Set ElementId} {id x y : ElementId} {e : Element}
  {fuel : Nat} {p : Plan} {safe : Prop}

/-- A tree with a sound structure; if it is `safe` that no choice is shadowed, then at most
one case of every choice holds data. -/
structure Orderly (t : Tree) (safe : Prop) (pending : Set ElementId) : Prop where
  sound : Sound t pending
  arranged : t.Arranged
  unshadowed : safe → t.Unshadowed
  exclusive : safe → t.Exclusive

theorem Orderly.fades (h : t.Orderly safe pending) (hf : t.Fades t') (h' : Sound t' pending') :
    t'.Orderly safe pending' where
  sound := h'
  arranged := h.arranged.retains hf.retains
  unshadowed := fun hs => (h.unshadowed hs).thins hf.thins
  exclusive := fun hs => hf.exclusive h.sound h' (h.exclusive hs)

theorem orderly_markChanged (ids : List ElementId) :
    Leads (Keeping (Orderly · safe pending)) (markChanged ids) := fun t h =>
  h.fades (fades_markChanged ids t) (h.sound.sameFrame (sameFrame_markChanged ids t))

/-! ## Filling an element -/

theorem laden_congr (h : t'.element? y = t.element? y) : t'.Laden y ↔ t.Laden y := by
  rw [Laden, h, Laden]

/-- Filling a single element does no harm but by what that element holds. -/
theorem Sound.exclusiveBut_of_retains (h : Sound t pending) (hex : t.Exclusive)
    (hf : t.Retains t') (hother : ∀ y, y ≠ id → t'.element? y = t.element? y) :
    t'.ExclusiveBut id := by
  intro z b y hz hy hlz hr hw hly
  have hlz' := (laden_congr (hother z hz)).1 hlz
  have hly' := (laden_congr (hother y hy)).1 hly
  exact h.exclusive_iff.1 hex hlz' (hf.thins.rival hr) (hf.thins.within hw) hly'

/-- Once all that its plan unsets is empty but for itself, a changed element does no harm. -/
theorem exclusive_of_plan (h : Sound t pending) (ha : t.Arranged) (hu : t.Unshadowed)
    (hx : t.element? x = some e) (hc : e.content ≠ .container)
    (hp : t.planFrom fuel x none = .ok p) (h' : Sound t' pending') (ha' : t'.Arranged)
    (ht : t.Thins t') (hbut : t'.ExclusiveBut x)
    (hempty : ∀ {c y}, .contents c ∈ p.unsets → t'.Within c y → y ≠ x → ¬ t'.Laden y) :
    t'.Exclusive := by
  refine h'.exclusive_of_rivals hbut fun {b y} hr hw => ?_
  have hcover := mem_unsets_of_rival h ha hu hx hc (ht.rival hr) hp
  have hyx : y ≠ x := by
    intro hyx
    subst hyx
    exact h'.not_within_of_rival (fun he hm hk hk' => ha'.case_unique h' he hm hk hk') hr hw
  exact hempty hcover hw hyx

/-! ## Assigning -/

/-- The tree shrinks, but for data, and stays orderly. -/
def Settles (safe : Prop) (pending : Set ElementId) (t t' : Tree) : Prop :=
  t.Shrinks t' ∧ (t.Orderly safe pending → t'.Orderly safe pending)

instance (safe : Prop) (pending : Set ElementId) : IsPreorder Tree (Settles safe pending) where
  refl t := ⟨refl_of Shrinks t, fun h => h⟩
  trans _ _ _ h h' := ⟨trans_of Shrinks h.1 h'.1, fun ho => h'.2 (h.2 ho)⟩

/-- Storing a value after the plan for it was carried out. -/
theorem orderly_store {t₀ : Tree} {value : Option LeafValue} (h₀ : t₀.Orderly safe pending)
    (hx : t₀.element? id = some e) (hc : e.content ≠ .container)
    (hp : t₀.planFrom fuel id none = .ok p) (h : t.Orderly safe pending) (ht : t₀.Thins t)
    (hempty : ∀ {c y}, .contents c ∈ p.unsets → t.Within c y → ¬ t.Laden y) :
    (t.modifyElement id (store value)).Orderly safe pending := by
  have hframe : t.SameFrame (t.modifyElement id (store value)) :=
    sameFrame_modifyElement fun e _ => frame_store value e
  have hretains := hframe.retains
  have hsound := h.sound.sameFrame hframe
  have harranged := h.arranged.retains hretains
  constructor
  case sound => exact hsound
  case arranged => exact harranged
  case unshadowed => exact fun hs => (h.unshadowed hs).thins hretains.thins
  case exclusive =>
    intro hs
    have hbut := h.sound.exclusiveBut_of_retains (h.exclusive hs) hretains
      fun y hy => element?_modifyElement_of_ne hy _
    refine exclusive_of_plan h₀.sound h₀.arranged (h₀.unshadowed hs) hx hc hp hsound harranged
      (trans_of Thins ht hretains.thins) hbut fun {c y} hm hw hy hl => ?_
    have hl' := (laden_congr (element?_modifyElement_of_ne hy _)).1 hl
    exact hempty hm (hretains.thins.within hw) hl'

/-- Assigning keeps a tree orderly. -/
theorem settles_assignFrom (fuel : Nat) (id : ElementId) (raw : Value) :
    Leads (Settles safe pending) (assignFrom fuel id raw) := by
  refine leads_assignFrom (fun {t t₁ id p e type} value hp he htype ht => ?_) fuel id raw
  have hshrinks : Leads Shrinks (do
      runUnsets p.unsets
      update id (store value)
      markChanged p.marks : Edit Unit) :=
    (shrinks_runUnsets p.unsets).bind fun _ => (shrinks_update (frame_store value)).bind fun _ =>
      shrinks_markChanged p.marks
  refine ⟨trans_of Shrinks ht.1 (hshrinks t₁), fun h => ?_⟩
  have h₁ := ht.2 h
  have hc : e.content ≠ .container := by
    intro hcont
    rw [leafType, hcont] at htype
    cases htype
  have hgood := (frameStable_sound pending).plan h.sound hp
  refine rel_of_ensures (R := fun _ t' => t'.Orderly safe pending) ?_
  have hrun := fades_runUnsets h₁.sound h₁.arranged.declared hgood
  refine (hrun.mono (fun _ _ hd => hd) fun _ t₂ hf => h₁.fades hf.2 hf.1).bind fun _ t₂ h₂ => ?_
  obtain ⟨h₂, hf₂, hempty⟩ := h₂
  have ho₂ := h₁.fades hf₂ h₂
  rw [ensures_bind, ensures_update]
  refine ⟨fun e₂ _ => ?_, fun _ => ho₂⟩
  have hthins := trans_of Thins ht.1.thins hf₂.thins
  have ho₃ : (t₂.modifyElement id (store value)).Orderly safe pending :=
    orderly_store h he hc hp ho₂ hthins hempty
  exact (orderly_markChanged p.marks).keeps ho₃

theorem settles_setLeaf (id : ElementId) (raw : Value) :
    Leads (Settles safe pending) (setLeaf id raw) :=
  leads_setLeaf settles_assignFrom id raw

theorem settles_assignKey (entry : ElementId) (parts : List (String × String)) :
    Leads (Settles safe pending) (assignKey entry parts) :=
  leads_assignKey settles_setLeaf entry parts

/-! ## Changing items and entries -/

/-- The hooks of a plan that no data was filled in for do no harm. -/
theorem Orderly.commitUnfilled (h : t.Orderly safe pending)
    (hgood : ∀ hook ∈ p.unsets, ∃ c, hook = .contents c) :
    (commit p).Ensures t (fun _ t' => t'.Orderly safe pending) fun _ t' =>
      t'.Orderly safe pending := by
  have hrun := fades_runUnsets h.sound h.arranged.declared hgood
  refine (hrun.mono (fun _ t₁ hd => ?_) fun _ t₁ hf => ?_).bind fun _ t₁ h₁ =>
    (orderly_markChanged p.marks).keeps h₁
  · exact h.fades hd.2.1 hd.1
  · exact h.fades hf.2 hf.1

/-- Carrying out the plan of an element that was filled makes the tree orderly again. -/
theorem orderly_commit (h : Sound t ∅) (ha : t.Arranged) (hu : safe → t.Unshadowed)
    (hbut : safe → t.ExclusiveBut id) (hx : t.element? id = some e) (hc : e.content ≠ .container)
    (hp : t.planFrom fuel id none = .ok p) :
    (commit p).Ensures t (fun _ t' => t'.Orderly safe ∅) fun _ t' => t'.Orderly safe ∅ := by
  have hgood : ∀ hook ∈ p.unsets, ∃ c, hook = .contents c := by
    intro hook hm
    obtain ⟨owner, oe, field, hoe, hget⟩ := mem_unsetters_of_planFrom hp hm
    obtain ⟨c, rfl, -⟩ := h.unsetter hoe (Assoc.mem_of_get?_eq_some hget)
    exact ⟨c, rfl⟩
  have hall := ensures_runUnsets_plan h ha hp
  have hrun := (fades_runUnsets h ha.declared hgood).and hall
  refine (hrun.mono (fun _ _ hd => hd.1) fun _ _ hf => hf.2.elim).bind fun _ t₁ h₁ => ?_
  obtain ⟨h₁, hf, hempty⟩ := h₁
  have ha₁ := ha.retains hf.retains
  have hex : safe → t₁.Exclusive := fun hs =>
    exclusive_of_plan h ha (hu hs) hx hc hp h₁ ha₁ hf.thins (hf.exclusiveBut (hbut hs))
      fun hm hw _ => hempty hm hw
  exact (orderly_markChanged p.marks).keeps ⟨h₁, ha₁, fun hs => (hu hs).thins hf.thins, hex⟩

/-- The same, where the plan was made for an earlier tree. -/
theorem Orderly.commitFilled {t₀ : Tree} (hp : t₀.plan id none = .ok p)
    (hx : t₀.element? id = some e) (hc : e.content ≠ .container) (ht : t₀.BareTo id t')
    (h : t.Orderly safe pending) (hr : t.Retains t')
    (hother : ∀ y, y ≠ id → t'.element? y = t.element? y) (h' : Sound t' ∅)
    (hx' : (t'.element? id).isSome) :
    (commit p).Ensures t' (fun _ t' => t'.Orderly safe ∅) fun _ t' => t'.Orderly safe ∅ := by
  obtain ⟨e', he'⟩ := Option.isSome_iff_exists.1 hx'
  obtain ⟨e₀, he₀, hb⟩ := ht (Nat.le_refl _) he'
  obtain rfl : e = e₀ := Option.some.inj (hx.symm.trans he₀)
  have hc' : e'.content ≠ .container := by
    intro hcont
    refine hc (Content.eq_container_of_bare ?_)
    rw [← Element.content_of_bare hb, hcont]
    rfl
  have hp' := planFrom_of_bare h' ht hx' (fun y hy => hy.elim) hp
  exact orderly_commit h' (h.arranged.retains hr) (fun hs => (h.unshadowed hs).thins hr.thins)
    (fun hs => h.sound.exclusiveBut_of_retains (h.exclusive hs) hr hother) he' hc' hp'

end DataTree.Tree
