import DataTree.Proofs.Links.Owned
import DataTree.Proofs.Tracking.Session

/-!
# DataTree.Proofs.Links.Orphans

What a removal leaves behind.

A removal goes down from the element along what containers and lists list, and takes
exactly that away (`mem_removed_iff`).  What has its parent there without being listed is
not found: a child in whose place another one of its name was made, or what was made
below a leaf or a list by hand.  It stays as an orphan, below an element that is gone.
So a removal leaves no orphan just if everything below the element is listed
(`leaves_no_orphan_iff`), and that is so in every session in which new elements get a
place of their own (`removed_with_everything_below`).
-/

namespace DataTree.Tree

open Edit Outcome

variable {t t' : Tree} {id p x : ElementId} {e : Element}

/-! ## What a removal takes away -/

/-- Going down ends only where everything that is listed is there. -/
theorem isSome_of_mem_subtreeFrom {fuel : Nat} {doomed : List ElementId}
    (h : t.subtreeFrom fuel id = .ok doomed) (hx : x ∈ doomed) : (t.element? x).isSome := by
  induction fuel generalizing id doomed with
  | zero => cases h
  | succ fuel ih =>
    rw [subtreeFrom, bind_eq_ok] at h
    obtain ⟨e, he, h⟩ := h
    rw [element_eq_ok_iff] at he
    obtain ⟨below, hbelow, h⟩ := bind_eq_ok.1 h
    obtain rfl := pure_eq_ok.1 h
    obtain hx | hx := List.mem_append.1 hx
    · obtain ⟨ds, hds, hx⟩ := List.mem_flatten.1 hx
      obtain ⟨c, -, hsub⟩ := mem_of_mapM hbelow hds
      exact ih hsub hx
    · obtain rfl := List.mem_singleton.1 hx
      rw [he]
      rfl

/-- A removal that succeeds takes away what is under the element, and that was all there. -/
theorem mem_removed_iff (h : (removeSubtree id).on t = (.ok (), t')) :
    (∀ x, t.Under id x → (t.element? x).isSome) ∧
      ∀ x, (t'.element? x).isSome ↔ (t.element? x).isSome ∧ ¬ t.Under id x := by
  have hends : (removeSubtree id).Ensures t
      (fun _ t' => (∀ x, t.Under id x → (t.element? x).isSome) ∧
      ∀ x, (t'.element? x).isSome ↔ (t.element? x).isSome ∧ ¬ t.Under id x) fun _ _ => True := by
    rw [removeSubtree, ensures_reading_bind]
    refine ⟨fun doomed hdoomed => ?_, fun _ _ => trivial⟩
    rw [ensures_get_bind]
    refine ⟨fun e _ => ?_, fun _ => trivial⟩
    have hmem : ∀ x, x ∈ doomed ↔ t.Under id x := fun x => mem_subtreeFrom_iff hdoomed
    refine ⟨fun x hx => ?_, fun x => ?_⟩
    · exact isSome_of_mem_subtreeFrom hdoomed ((hmem x).2 hx)
    · rw [(foldl_drop doomed (t.detach e)).1 x, element?_detach]
      by_cases hx : t.Under id x
      · simp [(hmem x).2 hx, hx]
      · simp only [mt (hmem x).1 hx, hx, if_false, not_false_iff, and_true]
        split <;> simp
  exact hends.of_ok h

theorem Owned.index_le_of_under (h : t.Owned) (hthere : ∀ x, t.Under id x → (t.element? x).isSome)
    (hu : t.Under id x) : id.index ≤ x.index := by
  induction hu with
  | refl => exact Nat.le_refl _
  | tail hq ha ih =>
    obtain ⟨ce, hce⟩ := Option.isSome_iff_exists.1 (hthere _ (hq.tail ha))
    exact Nat.le_of_lt (Nat.lt_of_le_of_lt ih (h.parent_lt hce (h.owned ha hce)))

/-- A removal leaves no orphan just if everything that has its parent under the element is listed by
that parent. -/
theorem leaves_no_orphan_iff (ho : t.Owned) (h : (removeSubtree id).on t = (.ok (), t')) :
    (∀ x y, (t'.element? x).isSome → t.Under id y → ¬ t'.Ascends x y) ↔
      ∀ x e p, t.element? x = some e → e.parent = some p → t.Under id p → t.Above p x := by
  obtain ⟨hthere, hleft⟩ := mem_removed_iff h
  have hs : t.Shrinks t' := by
    have hs := shrinks_removeSubtree id t
    rwa [h] at hs
  constructor
  · intro hno x e p he hp hu
    by_contra hunlisted
    -- Whatever is under the element is listed by its parent, or is the element itself.
    have hx : ¬ t.Under id x := by
      intro hx
      obtain rfl | ⟨q, -, hq⟩ := (Relation.ReflTransGen.cases_tail_iff _ _ _).1 hx
      · exact absurd (ho.parent_lt he hp) (Nat.not_lt.2 (ho.index_le_of_under hthere hu))
      · obtain rfl : p = q := Option.some.inj (hp.symm.trans (ho.owned hq he))
        exact hunlisted hq
    obtain ⟨e', he'⟩ := Option.isSome_iff_exists.1 ((hleft x).2 ⟨by rw [he]; rfl, hx⟩)
    obtain ⟨e₁, he₁, hse⟩ := hs.element he'
    obtain rfl : e = e₁ := Option.some.inj (he.symm.trans he₁)
    exact hno x p (by rw [he']; rfl) hu
      (.single ⟨e', he', (Element.parent_of_bare hse.bare).trans hp⟩)
  · intro hlisted x y hx hy ha
    have hstep : ∀ {x q}, (∃ e', t'.element? x = some e' ∧ e'.parent = some q) → t.Under id q →
        t.Under id x := by
      intro x q hq hu
      obtain ⟨e', he', hq⟩ := hq
      obtain ⟨e, he, hse⟩ := hs.element he'
      exact hu.tail (hlisted x e q he (Element.parent_of_bare hse.bare ▸ hq) hu)
    have hunder : t.Under id x := by
      clear hx
      induction ha using Relation.TransGen.head_induction_on with
      | single hq => exact hstep hq hy
      | head hq _ ih => exact hstep hq ih
    exact ((hleft x).1 hx).2 hunder

/-! ## Roots -/

/-- The way up from an element ends at a root, over elements that are all there. -/
inductive Anchored (t : Tree) : ElementId → Prop
  | root {x : ElementId} {e : Element} : t.element? x = some e → e.parent = none → Anchored t x
  | child {x p : ElementId} {e : Element} :
    t.element? x = some e → e.parent = some p → Anchored t p → Anchored t x

/-- In a sound tree every way up ends at a root. -/
theorem Sound.anchored (h : Sound t ∅) (hx : (t.element? x).isSome) : t.Anchored x := by
  obtain ⟨n, hn⟩ : ∃ n, n = x.index := ⟨_, rfl⟩
  induction n using Nat.strong_induction_on generalizing x with
  | _ n ih =>
    obtain ⟨e, he⟩ := Option.isSome_iff_exists.1 hx
    cases hp : e.parent with
    | none => exact .root he hp
    | some p =>
      obtain ⟨pe, hpe, -⟩ := h.listed he hp (Set.notMem_empty x)
      exact .child he hp (ih p.index (hn ▸ h.parent_lt he hp) (by rw [hpe]; rfl) rfl)

/-! ## Sessions -/

/-- New elements, by themselves or with all that is below them, become roots, or children of
containers that have no child of their name. -/
def Seated (t : Tree) : Operation → Prop
  | .wrap _ spec _ | .instantiate _ spec => t.HasPlace spec
  | _ => True

theorem sound_of_seated {op : Operation} (h : Sound t ∅) (hop : t.Seated op) :
    Sound (op.after t) ∅ := by
  cases op with
  | wrap content spec fresh =>
    obtain ⟨hfit, hpend⟩ := HasPlace.fits hop
    have hwrap : (wrap content spec).Ensures t (fun _ t' => Sound t' (∅ ∪ t.pendingFor spec))
        fun _ t' => Sound t' (∅ ∪ t.pendingFor spec) :=
      (ensures_wrap content h hfit fresh).mono (fun _ t' hb => hb.1.sound) fun _ _ hf => hf.elim
    rw [hpend, Set.union_empty] at hwrap
    exact rel_of_ensures (R := fun _ t' => Sound t' ∅) hwrap
  | instantiate schema spec =>
    have hregular : t.Regular (.instantiate schema spec) := hop
    exact sound_after h hregular
  | _ => exact sound_after h trivial

theorem sound_of_reaches_seated (h : Reaches Seated {} t) : Sound t ∅ :=
  h.keeps (fun _ _ hs hop => sound_of_seated hs hop) sound_empty

/-- **Removing a subtree removes everything below it that is listed, and nothing else**, in every
session.  It leaves no orphan just if everything that has its parent there is listed by that parent;
and in sessions where new elements get places of their own this is so, and every element that is
left reaches a root. -/
theorem removed_with_everything_below (h : Reaches Unrestricted {} t)
    (hremove : (removeSubtree id).on t = (.ok (), t')) :
    (∀ x, (t'.element? x).isSome ↔ (t.element? x).isSome ∧ ¬ t.Under id x) ∧
      ((∀ x y, (t'.element? x).isSome → t.Under id y → ¬ t'.Ascends x y) ↔
        ∀ x e p, t.element? x = some e → e.parent = some p → t.Under id p → t.Above p x) ∧
      (Reaches Seated {} t →
        (∀ x y, (t'.element? x).isSome → t.Under id y → ¬ t'.Ascends x y) ∧
          ∀ x, (t'.element? x).isSome → t'.Anchored x) := by
  have hiff := leaves_no_orphan_iff (owned_of_reaches h).1 hremove
  refine ⟨(mem_removed_iff hremove).2, hiff, fun hseated => ?_⟩
  have hs := sound_of_reaches_seated hseated
  have hs' : Sound t' ∅ := by
    have hseats : t.Seated (.removeSubtree id) := trivial
    have hafter : Sound ((removeSubtree id).on t).2 ∅ := sound_of_seated hs hseats
    rwa [hremove] at hafter
  exact ⟨hiff.2 fun x e p he hp _ => hs.listed he hp (Set.notMem_empty x),
    fun x hx => hs'.anchored hx⟩

/-! ## A session -/

/-- A container in which a second leaf was made in the place of the first one. -/
def doubled : Tree :=
  let leaf : Content := .leaf { type := .string }
  let holder := (Operation.wrap .container { name := "holder" } .container).after {}
  let once := (Operation.wrap leaf { name := "note", parent := some ⟨0⟩ } (.leaf _)).after holder
  (Operation.wrap leaf { name := "note", parent := some ⟨0⟩ } (.leaf _)).after once

theorem reaches_doubled : Reaches Unrestricted {} doubled := by
  have hstart : Reaches Unrestricted {} {} := .refl
  have hholder := hstart.andThen (.wrap .container { name := "holder" } .container) trivial
  have honce := hholder.andThen
    (.wrap (.leaf { type := .string }) { name := "note", parent := some ⟨0⟩ } (.leaf _)) trivial
  exact honce.andThen
    (.wrap (.leaf { type := .string }) { name := "note", parent := some ⟨0⟩ } (.leaf _)) trivial

/-- The tree after the container was removed. -/
def bereft : Tree := ((removeSubtree ⟨0⟩).on doubled).2

/-- The first leaf is left, below the container that is gone. -/
theorem ascends_bereft :
    ∃ x y, (bereft.element? x).isSome ∧ doubled.Under ⟨0⟩ y ∧ bereft.Ascends x y := by
  have horphan : (bereft.element? ⟨1⟩).any (·.parent == some ⟨0⟩) = true := by decide +kernel
  obtain ⟨e, he, hp⟩ := (Option.any_eq_true _ _).1 horphan
  exact ⟨⟨1⟩, ⟨0⟩, by rw [he]; rfl, .refl, .single ⟨e, he, beq_iff_eq.1 hp⟩⟩

/-- So it is not true that a removal leaves nothing below what it has removed. -/
theorem not_removed_doubled :
    ¬ ∀ (t t' : Tree) (id : ElementId), Reaches Unrestricted {} t →
      (removeSubtree id).on t = (.ok (), t') →
      ∀ x y, (t'.element? x).isSome → t.Under id y → ¬ t'.Ascends x y := by
  intro hall
  obtain ⟨x, y, hx, hy, ha⟩ := ascends_bereft
  exact hall doubled bereft ⟨0⟩ reaches_doubled rfl x y hx hy ha

/-- The first leaf was no longer listed, which is why it stayed when the container went. -/
theorem removed_doubled :
    bereft.ids = [⟨1⟩] ∧ ¬ ∀ x e p, doubled.element? x = some e → e.parent = some p →
      doubled.Under ⟨0⟩ p → doubled.Above p x := by
  refine ⟨by decide +kernel, fun hlisted => ?_⟩
  obtain ⟨x, y, hx, hy, ha⟩ := ascends_bereft
  have hremove : (removeSubtree ⟨0⟩).on doubled = (.ok (), bereft) := rfl
  exact (removed_with_everything_below reaches_doubled hremove).2.1.2 hlisted x y hx hy ha

end DataTree.Tree
