import DataTree.Proofs.Keys.Entry
import DataTree.Proofs.Rollback.Alike

/-!
# DataTree.Proofs.Ledger.Upholds

What an operation on something else leaves in a list.

A list loses all its entries when another case of a choice is filled that it, or something it
is under, is a member of.  Apart from that, whatever is assigned, edited or unset elsewhere,
the list keeps its entries, in their order (`Upholds`), and so it does when entries are deleted
from another list.
-/

namespace DataTree.Tree

open Edit Outcome

variable {t₀ t t' : Tree} {pending : Set ElementId} {id c x y : ElementId} {e : Element} {p : Plan}
  {l l' : KeyedList} {fuel : Nat} {active : Option Case} {hook : Unset} {C : Prop}

/-! ## Being a member of a case -/

/-- The element, or something it is under, is a member of a case of a choice. -/
def InCase (t : Tree) (y : ElementId) : Prop :=
  ∃ c ce q qe k, t.element? c = some ce ∧ ce.parent = some q ∧ t.element? q = some qe ∧
    qe.choices.Has k ce.name ∧ t.Under c y

/-- What old elements know of themselves does not change, so neither do the cases they are in. -/
theorem InCase.older (h : t'.InCase y) (hs : Sound t ∅) (hs' : Sound t' pending)
    (hb : t.BareTo y t') : t.InCase y := by
  obtain ⟨c, ce', q, qe', k, hce', hpar, hqe', hhas, hu⟩ := h
  have hle := hs'.index_le_of_under hu
  have hlt := hs'.parent_lt hce' hpar
  obtain ⟨ce, hce, hbc⟩ := hb hle hce'
  obtain ⟨qe, hqe, hbq⟩ := hb (by omega) hqe'
  refine ⟨c, ce, q, qe, k, hce, ?_, hqe, ?_, hb.under hs hs' hu⟩
  · rw [← Element.parent_of_bare hbc, hpar]
  · rw [← Element.choices_of_bare hbq, ← Element.name_of_bare hbc]
    exact hhas

theorem InCase.shrinks (h : t'.InCase y) (hs : t.Shrinks t') : t.InCase y := by
  obtain ⟨c, ce', q, qe', k, hce', hpar, hqe', hhas, hu⟩ := h
  obtain ⟨ce, hce, hsc⟩ := hs.element hce'
  obtain ⟨qe, hqe, hsq⟩ := hs.element hqe'
  refine ⟨c, ce, q, qe, k, hce, ?_, hqe, ?_, hs.under hu⟩
  · rw [← Element.parent_of_bare hsc.bare, hpar]
  · rw [← Element.choices_of_bare hsq.bare, ← Element.name_of_bare hsc.bare]
    exact hhas

/-- Every hook of a plan is that of a member of a case. -/
theorem exists_choice_of_planFrom (hp : t.planFrom fuel x active = .ok p) (hm : hook ∈ p.unsets) :
    ∃ q qe k m, t.element? q = some qe ∧ qe.choices.Has k m ∧
      Assoc.get? m qe.unsetters = some hook := by
  induction fuel generalizing x active p with
  | zero => cases hp
  | succ fuel ih =>
    obtain ⟨e, hooks, he, hh, hrest⟩ := planFrom_succ_eq_ok.1 hp
    have hown : hook ∈ hooks → ∃ q qe k m, t.element? q = some qe ∧ qe.choices.Has k m ∧
        Assoc.get? m qe.unsetters = some hook := by
      intro hm
      obtain ⟨-, k', m, -, hhas, -, hget⟩ := exists_rival_of_siblingHooks hh hm
      exact ⟨x, e, k', m, he, hhas, hget⟩
    obtain ⟨-, rfl⟩ | ⟨parent, above, -, ha, rfl⟩ := hrest
    · exact hown hm
    · obtain hm | hm := List.mem_append.1 hm
      · exact hown hm
      · exact ih ha hm

/-! ## Upholding a list -/

/-- If the list is still there it is what it was, or has no entries any more.  This only
happens if `C`. -/
def Upholds (C : Prop) (id : ElementId) (t t' : Tree) : Prop :=
  ∀ ⦃l'⦄, t'.held id = some (.list l') → ∃ l, t.held id = some (.list l) ∧ l'.schema = l.schema ∧
    (l'.members = l.members ∨ l'.members = [] ∧ C)

instance (C : Prop) (id : ElementId) : IsPreorder Tree (Upholds C id) where
  refl _ l hl := ⟨l, hl, rfl, .inl rfl⟩
  trans _ _ _ h h' l'' hl'' := by
    obtain ⟨l', hl', hschema', hm'⟩ := h' hl''
    obtain ⟨l, hl, hschema, hm⟩ := h hl'
    refine ⟨l, hl, hschema'.trans hschema, ?_⟩
    obtain hm' | hm' := hm'
    · rw [hm']
      exact hm
    · exact .inr hm'

theorem Upholds.mono {C' : Prop} (h : t.Upholds C id t') (hC : C → C') : t.Upholds C' id t' := by
  intro l' hl'
  obtain ⟨l, hl, hschema, hm⟩ := h hl'
  exact ⟨l, hl, hschema, hm.imp_right fun hm => ⟨hm.1, hC hm.2⟩⟩

theorem upholds_of_held (h : t'.held id = t.held id) : t.Upholds C id t' := fun l hl =>
  ⟨l, h ▸ hl, rfl, .inl rfl⟩

theorem upholds_of_gone (h : t'.element? id = none) : t.Upholds C id t' := by
  intro l hl
  rw [held, h] at hl
  cases hl

/-- What is under a list is not what the list holds. -/
theorem SameFrame.upholds (h : t.SameFrame t') : t.Upholds C id t' := by
  intro l' hl'
  obtain ⟨e', he', hl'⟩ := held_eq_some_iff.1 hl'
  obtain ⟨e, he, hf⟩ := h.element? he'
  obtain ⟨hb, -, hlinks⟩ := Element.frame_eq_iff.1 hf
  have hc : e.content = .list { l' with members := e.content.links } :=
    Content.eq_list_of_bare (by rw [← hl', Element.content_of_bare hb])
  rw [hl'] at hlinks
  exact ⟨_, held_eq_some_iff.2 ⟨e, he, hc⟩, rfl, .inl hlinks⟩

/-- Unsetting an element empties the lists within it, and no others that are still there. -/
theorem Unsets.clears (h : Unsets c t t') (hl' : t'.held id = some (.list l')) :
    ∃ l, t.held id = some (.list l) ∧ l'.schema = l.schema ∧ (t.Within c id → l'.members = []) ∧
      (¬ t.Within c id → l'.members = l.members) := by
  by_cases hw : t.Within c id
  · obtain ⟨e', he', hl'⟩ := held_eq_some_iff.1 hl'
    obtain ⟨e, he, rfl⟩ := Option.map_eq_some_iff.1 ((h.within hw).symm.trans he')
    have hbare : e.content.bare = .list l' := hl'
    cases hc : e.content with
    | list l =>
      rw [hc] at hbare
      obtain rfl := Content.list.inj hbare
      exact ⟨l, held_eq_some_iff.2 ⟨e, he, hc⟩, rfl, fun _ => rfl, fun hno => absurd hw hno⟩
    | _ => simp [hc, Content.bare] at hbare
  · by_cases hu : t.Under c id
    · rw [held, h.gone hu hw] at hl'
      cases hl'
    · rw [held_congr (h.stays hu)] at hl'
      exact ⟨l', hl', rfl, fun hw' => absurd hw' hw, fun _ => rfl⟩

theorem Unsets.upholds (h : Unsets c t t') (hC : t.Under c id → C) : t.Upholds C id t' := by
  intro l' hl'
  obtain ⟨l, hl, hschema, hin, hout⟩ := h.clears hl'
  refine ⟨l, hl, hschema, ?_⟩
  by_cases hw : t.Within c id
  · exact .inr ⟨hin hw, hC hw.under⟩
  · exact .inl (hout hw)

/-- The hook leads to something that the list is under only if `C`. -/
def Cased (C : Prop) (t : Tree) (id : ElementId) (hook : Unset) : Prop :=
  ∃ c, hook = .contents c ∧ ((t.element? c).isSome → t.Under c id → C)

/-- So do the hooks of all plans, if what is in a case is. -/
theorem Sound.cased (h : Sound t pending) (hp : t.planFrom fuel x active = .ok p)
    (hC : t.InCase id → C) : ∀ hook ∈ p.unsets, t.Cased C id hook := by
  intro hook hm
  obtain ⟨q, qe, k, m, hqe, hhas, hget⟩ := exists_choice_of_planFrom hp hm
  obtain ⟨c, rfl, hfield⟩ := h.unsetter hqe (Assoc.mem_of_get?_eq_some hget)
  refine ⟨c, rfl, fun hc hu => hC ?_⟩
  obtain ⟨ce, hce⟩ := Option.isSome_iff_exists.1 hc
  obtain ⟨hpar, rfl⟩ := hfield.2 ce hce
  exact ⟨c, ce, q, qe, k, hce, hpar, hqe, hhas, hu⟩

theorem Cased.shrinks (h : t.Cased C id hook) (hs : t.Shrinks t') : t'.Cased C id hook := by
  obtain ⟨c, rfl, hc⟩ := h
  refine ⟨c, rfl, fun hc' hu => hc ?_ (hs.under hu)⟩
  obtain ⟨ce', hce'⟩ := Option.isSome_iff_exists.1 hc'
  obtain ⟨ce, hce, -⟩ := hs.element hce'
  rw [hce]
  rfl

/-- Whatever is assigned and unset, the list is upheld. -/
theorem frameStable_upholds (h₀ : Sound t₀ pending) (hC : t₀.InCase id → C) :
    FrameStable (fun t => Sound t pending ∧ t.Declared ∧ t₀.Shrinks t ∧ t₀.Upholds C id t)
      (t₀.Cased C id) where
  plan := fun h hp => h₀.cased (h.2.2.1.planFrom hp) hC
  unset := fun {hook} hgood t h => by
    obtain ⟨c, rfl, hcased⟩ := hgood
    obtain ⟨hs, hd, hshr, hup⟩ := h
    cases hc : t.element? c with
    | none =>
      rw [runUnset, on_unset_of_none hc]
      exact ⟨hs, hd, hshr, hup⟩
    | some ce =>
      obtain ⟨ce₀, hce₀, -⟩ := hshr.element hc
      refine rel_of_ensures
        (R := fun _ t' => Sound t' pending ∧ t'.Declared ∧ t₀.Shrinks t' ∧ t₀.Upholds C id t') ?_
      refine ((hs.unset hd hc).and ((fades_unset hs hd c).and ((shrinks_unset c).ensures t))).mono
        (fun _ t' hpost => ?_) fun _ _ hf => hf.1.elim
      obtain ⟨hun, ⟨hs', hfades, -⟩, hshr'⟩ := hpost
      refine ⟨hs', hd.retains hfades.retains, trans_of Shrinks hshr hshr',
        trans_of (Upholds C id) hup ?_⟩
      exact hun.upholds fun hu => hcased (by rw [hce₀]; rfl) (hshr.under hu)
  same := fun hf h =>
    ⟨h.1.sameFrame hf, h.2.1.retains hf.retains, trans_of Shrinks h.2.2.1 hf.shrinks,
      trans_of (Upholds C id) h.2.2.2 hf.upholds⟩

/-- Carrying out a plan, whether that succeeds or fails. -/
theorem upholds_commit (hs : Sound t ∅) (hd : t.Declared) (hC : t.InCase id → C)
    (hgood : ∀ hook ∈ p.unsets, t.Cased C id hook) : t.Upholds C id ((commit p).on t).2 :=
  ((frameStable_upholds hs hC).assignStable.commit hgood t
    ⟨hs, hd, refl_of Shrinks t, refl_of (Upholds C id) t⟩).2.2.2

/-! ## Operations on something else -/

/-- Removing what is on its way into a list or out of one. -/
theorem Sound.upholds_removeSubtree (h : Sound t pending) (hx : x ∈ pending) :
    (Tree.removeSubtree x).Ensures t
      (fun _ t' => Sound t' (pending \ {x}) ∧ t.Shrinks t' ∧ t.Upholds C id t')
        fun _ _ => False := by
  refine ((h.removePending hx).and ((shrinks_removeSubtree x).ensures t)).mono (fun _ t' h' => ?_)
    fun _ _ hf => hf.1
  obtain ⟨⟨hs', hgone, hstays⟩, hshr⟩ := h'
  refine ⟨hs', hshr, ?_⟩
  by_cases hu : t.Under x id
  · exact upholds_of_gone (hgone id hu)
  · exact upholds_of_held (held_congr (hstays id hu))

/-- Deleting an entry of another list. -/
theorem upholds_delete (hs : Sound t ∅) (hd : t.Declared) (hne : x ≠ id) (key : String) :
    t.Upholds (t.InCase id) id ((delete x key).on t).2 := by
  have htell : ∀ (t' : Tree) event, t'.Upholds (t.InCase id) id (t'.tell event) := fun t' event =>
    (sameFrame_tell t' event).upholds
  refine rel_of_ensures (R := Upholds (t.InCase id) id)
    (ensures_delete (fun _ => refl_of (Upholds (t.InCase id) id) t) fun {e} he => ?_)
  let told := t.tell (.deleting e.path key)
  have h₁ := htell t (.deleting e.path key)
  have hs₁ : Sound told ∅ := hs.sameFrame (sameFrame_tell t _)
  refine ⟨fun _ => h₁, fun {p l entry rest} hp hl htake => ?_⟩
  obtain ⟨hschema, hperm⟩ := KeyedList.perm_of_take (hs.keys he hl) htake
  have hsub : rest.members.Subperm l.members :=
    (List.sublist_cons_self _ _).subperm.trans hperm.symm.subperm
  have hshr₂ : told.Shrinks (told.withList x rest) := shrinks_withList he hl hschema hsub
  have h₂ : told.Upholds (t.InCase id) id (told.withList x rest) :=
    upholds_of_held (held_modifyElement_of_ne (Ne.symm hne))
  have h₁₂ := trans_of (Upholds (t.InCase id) id) h₁ h₂
  have hrm : (removeSubtree entry).Ensures (told.withList x rest)
      (fun _ t₃ => Sound t₃ ({entry} \ {entry}) ∧
      (told.withList x rest).Shrinks t₃ ∧ (told.withList x rest).Upholds (t.InCase id) id t₃)
        fun _ _ => False :=
    (hs₁.takeEntry he hl htake).upholds_removeSubtree (Set.mem_singleton entry)
  rw [Set.sdiff_self] at hrm
  refine hrm.mono (fun _ t₃ h₃ => ?_) fun _ _ hf => hf.elim
  obtain ⟨hs₃, hshr₃, h₃⟩ := h₃
  have hshr := trans_of Shrinks hshr₂ hshr₃
  have h₁₃ := trans_of (Upholds (t.InCase id) id) h₁₂ h₃
  have hcase : t₃.InCase id → told.InCase id := fun hc => hc.shrinks hshr
  have hgood : ∀ hook ∈ p.unsets, told.Cased (t.InCase id) id hook := hs₁.cased hp fun hc => hc
  have h₄ : t₃.Upholds (t.InCase id) id ((commit p).on t₃).2 :=
    upholds_commit hs₃ (Declared.shrinks (t := told) hd hshr) hcase fun hook hm =>
      (hgood hook hm).shrinks hshr
  have h₁₄ := trans_of (Upholds (t.InCase id) id) h₁₃ h₄
  exact (ensures_of_rel (R := fun _ t' => t.Upholds (t.InCase id) id t') h₁₄).mono
    (fun _ t₄ h => trans_of (Upholds (t.InCase id) id) h (htell t₄ _)) fun _ _ h => h

end DataTree.Tree
