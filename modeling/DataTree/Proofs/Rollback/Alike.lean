import DataTree.Proofs.Choice.Operations
import DataTree.Proofs.Choice.Spare
import DataTree.Proofs.Rollback.Saves
import DataTree.Proofs.Tracking.Reading

/-!
# DataTree.Proofs.Rollback.Alike

Trees whose old elements differ in marks only.

Old elements are those in slots before `n`.  They are alike in two trees if they are the
same but for their marks (`Alike`).  Whatever can be said of a tree without its marks, can
then be said of old elements in both trees.
-/

namespace DataTree

open Edit Outcome

/-! ## Elements without marks -/

namespace Element

variable {e e' : Element}

/-- An element without its mark. -/
def unmarked (e : Element) : Element := { e with changed := false }

theorem unmarked_eq_iff :
    e'.unmarked = e.unmarked ↔ e'.bare = e.bare ∧ e'.children = e.children ∧
    e'.content = e.content := by
  constructor
  · intro h
    have hb : e'.unmarked.bare = e.unmarked.bare := congrArg Element.bare h
    exact ⟨hb, (congrArg Element.children h :), (congrArg Element.content h :)⟩
  · rintro ⟨hb, hch, hc⟩
    have heq : ∀ e : Element,
        e.unmarked = { e.bare with content := e.content, children := e.children } :=
      fun _ => rfl
    rw [heq e', heq e, hb, hch, hc]

theorem eq_of_unmarked (h : e'.unmarked = e.unmarked) (hc : e'.changed = e.changed) : e' = e := by
  have heq : ∀ e : Element, e = { e.unmarked with changed := e.changed } := fun _ => rfl
  rw [heq e', heq e, h, hc]

end Element

namespace Tree

variable {t t' t'' : Tree} {pending : Set ElementId} {id c x y : ElementId} {e e' : Element}
  {n : Nat} {hooks : List Unset}

/-! ## Being alike -/

/-- The elements before slot `n` are the same but for their marks. -/
def Alike (n : Nat) (t t' : Tree) : Prop :=
  ∀ ⦃x : ElementId⦄, x.index < n → (t'.element? x).map Element.unmarked =
    (t.element? x).map Element.unmarked

instance (n : Nat) : IsPreorder Tree (Alike n) where
  refl _ _ _ := rfl
  trans _ _ _ h h' _ hx := (h' hx).trans (h hx)

theorem alike_of_element (h : ∀ {x : ElementId}, x.index < n → t'.element? x = t.element? x) :
    Alike n t t' :=
  fun _ hx => by rw [h hx]

namespace Alike

theorem symm (h : Alike n t t') : Alike n t' t := fun _ hx => (h hx).symm

theorem element (h : Alike n t t') (hx : x.index < n) (he : t.element? x = some e) :
    ∃ e', t'.element? x = some e' ∧ e'.unmarked = e.unmarked := exists_of_map_eq (h hx) he

theorem held (h : Alike n t t') (hx : x.index < n) : t'.held x = t.held x := by
  have hmap := congrArg (Option.map Element.content) (h hx)
  rwa [Option.map_map, Option.map_map] at hmap

theorem laden_iff (h : Alike n t t') (hx : x.index < n) : t'.Laden x ↔ t.Laden x :=
  laden_of_held (h.held hx)

/-- What an old element is under is old, and it is under it in both trees. -/
theorem under (h : Alike n t t') (hs : Sound t pending) (hy : y.index < n) (hu : t.Under c y) :
    t'.Under c y := by
  induction hu using Relation.ReflTransGen.head_induction_on with
  | refl => exact .refl
  | head ha hrest ih =>
    refine Relation.ReflTransGen.head ?_ ih
    have hle := hs.index_le_of_under hrest
    obtain ⟨-, hlt, -⟩ := hs.of_above ha
    obtain ⟨e, he, hbelow⟩ := ha
    obtain ⟨e', he', hun⟩ := h.element (by omega) he
    have hb : e'.below = e.below := (congrArg Element.below hun :)
    exact ⟨e', he', hb ▸ hbelow⟩

theorem bareTo (h : Alike n t t') (hx : x.index < n) : t.BareTo x t' := by
  intro y e' hy he'
  obtain ⟨e, he, hun⟩ := h.symm.element (Nat.lt_of_le_of_lt hy hx) he'
  exact ⟨e, he, (Element.unmarked_eq_iff.1 hun).1.symm⟩

/-- What goes on among new elements does not concern the old ones. -/
theorem mono {m : Nat} (h : Alike n t t') (hm : m ≤ n) : Alike m t t' :=
  fun _ hx => h (Nat.lt_of_lt_of_le hx hm)

end Alike

/-- Filling a new element, where its hooks are free of old data, leaves old elements alike. -/
theorem Put.alike (hput : Put x hooks pending t t') (hs : Sound t pending) (hd : t.Declared)
    (hret : t.Retains t') (hx : n ≤ x.index)
    (hfree : ∀ ⦃y : ElementId⦄, y.index < n → t.Laden y → t.Free hooks y) : Alike n t t' := by
  intro y hy
  have hne : y ≠ x := by
    rintro rfl
    omega
  cases hye : t.element? y with
  | none => rw [hput.shrinks.element?_eq_none hye]
  | some e =>
    cases hye' : t'.element? y with
    | none =>
      obtain ⟨k, -, hk, hl, hu⟩ := hput.gone (by rw [hye]; rfl) hye'
      have hle := hs.index_le_of_under hu
      exact absurd (hfree (Nat.lt_of_le_of_lt hle hy) hl) hk
    | some e' =>
      obtain ⟨e₀, he₀, hb, hch⟩ := hret hye'
      obtain rfl : e = e₀ := Option.some.inj (hye.symm.trans he₀)
      have hcontent : e'.content = e.content := by
        by_cases hf : t.Free hooks y
        · have hheld := hput.stays hne hf
          rw [Tree.held, Tree.held, hye, hye', Option.map_some, Option.map_some] at hheld
          exact Option.some.inj hheld
        · -- What was unset without holding data was unset before.
          have hno : ¬ t.Laden y := fun hl => hf (hfree hy hl)
          have hno' : ¬ t'.Laden y := fun hl => hno ((hput.laden_iff hne).1 hl).1
          have hdata : e.content.holdsData = false := by
            rw [← Bool.not_eq_true]
            exact fun hd => hno ⟨e, hye, hd⟩
          have hdata' : e'.content.holdsData = false := by
            rw [← Bool.not_eq_true]
            exact fun hd => hno' ⟨e', hye', hd⟩
          rw [← Content.bare_eq_self (hd hye) hdata,
            ← Content.bare_eq_self (hd.retains hret hye') hdata', Element.content_of_bare hb]
      rw [Option.map_some, Option.map_some, Element.unmarked_eq_iff.2 ⟨hb, hch, hcontent⟩]

/-! ## Keeping children -/

/-- Assigning, unsetting and marking leaves the children of what stays. -/
theorem frameStable_retains (t₀ : Tree) (pending : Set ElementId) :
    FrameStable (fun t => Sound t pending ∧ t.Declared ∧ t₀.Retains t) fun hook =>
      ∃ c, hook = .contents c where
  plan := fun h hp => (frameStable_sound pending).plan h.1 hp
  unset := fun {hook} hgood t h => by
    obtain ⟨c, rfl⟩ := hgood
    obtain ⟨hs, hd, hret⟩ := h
    refine rel_of_ensures (R := fun _ t' => Sound t' pending ∧ t'.Declared ∧ t₀.Retains t')
      ((fades_unset hs hd c).mono (fun _ t' hf => ?_) fun _ t' hf => hf.1 ▸ ⟨hs, hd, hret⟩)
    exact ⟨hf.1, hd.retains hf.2.1.retains, trans_of Retains hret hf.2.1.retains⟩
  same :=
    fun hf h => ⟨h.1.sameFrame hf, h.2.1.retains hf.retains, trans_of Retains h.2.2 hf.retains⟩

/-- Where old elements know of themselves what they knew, they are under what they were. -/
theorem BareTo.under {pending' : Set ElementId} (hb : t.BareTo x t') (h : Sound t ∅)
    (h' : Sound t' pending') (hu : t'.Under c x) : t.Under c x := by
  induction hu with
  | refl => exact .refl
  | tail hu ha ih =>
    obtain ⟨-, hlt, e', he', hpar'⟩ := h'.of_above ha
    obtain ⟨e, he, hbare⟩ := hb (Nat.le_refl _) he'
    have hpar := (Element.parent_of_bare hbare).symm.trans hpar'
    exact h.under_of_parent he hpar (Set.notMem_empty _) (ih fun _ _ hy => hb (by omega))

end Tree

end DataTree
