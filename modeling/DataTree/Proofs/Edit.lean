import DataTree.Tree.State
import Mathlib.Order.Defs.Unbundled

/-!
# DataTree.Proofs.Edit

How to reason about edits.

* `Ensures x t done failed` says where the edit `x` may end when it starts from
  the tree `t`: in `done` with a value, or in `failed` with an error.  An edit that
  cannot fail has `failed := fun _ _ => False`.
* `Leads R x` says that `x` moves every tree along the relation `R`, whether it
  succeeds or not.  For a preorder `R` it is enough to look at the single steps.
  `Keeping I`, "what had the invariant `I` has it still", is such a preorder.
-/

namespace DataTree

namespace Edit

variable {α β : Type}

/-! ## Outcomes -/

/-- What holds where an edit ends: one thing if it gives a value, another if it
fails. -/
def Ensures (x : Edit α) (t : Tree) (done : α → Tree → Prop) (failed : Error → Tree → Prop) :
    Prop :=
  match x.on t with
  | (.ok a, t') => done a t'
  | (.error e, t') => failed e t'

section

variable {x : Edit α} {t t' : Tree} {done done' : α → Tree → Prop}
  {failed failed' : Error → Tree → Prop}

/-- What an edit ensures, by its results. -/
theorem ensures_iff :
    x.Ensures t done failed ↔
      (∀ a t', x.on t = (.ok a, t') → done a t') ∧
        ∀ e t', x.on t = (.error e, t') → failed e t' := by
  unfold Ensures
  obtain ⟨r, t'⟩ := x.on t
  cases r <;> simp

theorem Ensures.of_ok {a : α} (h : x.Ensures t done failed) (hx : x.on t = (.ok a, t')) :
    done a t' := (ensures_iff.1 h).1 a t' hx

theorem Ensures.of_error {e : Error} (h : x.Ensures t done failed)
    (hx : x.on t = (.error e, t')) : failed e t' := (ensures_iff.1 h).2 e t' hx

/-- What does not fail succeeds. -/
theorem Ensures.exists_ok (h : x.Ensures t done fun _ _ => False) :
    ∃ a t', x.on t = (.ok a, t') ∧ done a t' := by
  cases hx : x.on t with
  | mk r t' =>
    cases r with
    | ok a => exact ⟨a, t', rfl, h.of_ok hx⟩
    | error err => exact (h.of_error hx).elim

/-- What fails exactly where something does not hold succeeds where it does. -/
theorem Ensures.succeeds_iff {x : Edit Unit} {P : Prop}
    (h : x.Ensures t (fun _ _ => P) fun _ _ => ¬ P) : (∃ t', x.on t = (.ok (), t')) ↔ P := by
  cases hx : x.on t with
  | mk r t' =>
    cases r with
    | ok a => simp [h.of_ok hx]
    | error err => simp [h.of_error hx]

/-- An edit of which it is known that it succeeds. -/
theorem exists_ok_of_isOk (h : (x.on t).1.isOk = true) : ∃ a t', x.on t = (.ok a, t') := by
  generalize x.on t = result at h
  obtain ⟨err | a, t'⟩ := result
  · cases h
  · exact ⟨a, t', rfl⟩

/-- A result that is known decides what is ensured. -/
theorem ensures_of_ok {a : α} (hx : x.on t = (.ok a, t')) :
    x.Ensures t done failed ↔ done a t' := by simp [Ensures, hx]

/-- An error that is known decides what is ensured. -/
theorem ensures_of_error {e : Error} (hx : x.on t = (.error e, t')) :
    x.Ensures t done failed ↔ failed e t' := by simp [Ensures, hx]

/-- Where an edit ends is where it ends. -/
theorem ensures_on (x : Edit α) (t : Tree) :
    x.Ensures t (fun a t' => x.on t = (.ok a, t')) fun e t' => x.on t = (.error e, t') := by
  rw [ensures_iff]
  exact ⟨fun _ _ h => h, fun _ _ h => h⟩

theorem ensures_true (x : Edit α) (t : Tree) : x.Ensures t (fun _ _ => True) fun _ _ => True := by
  rw [ensures_iff]
  exact ⟨fun _ _ _ => trivial, fun _ _ _ => trivial⟩

/-- What an edit ensures may be weakened on both sides. -/
theorem Ensures.mono (h : x.Ensures t done failed) (hd : ∀ a t', done a t' → done' a t')
    (hf : ∀ e t', failed e t' → failed' e t') : x.Ensures t done' failed' := by
  rw [ensures_iff] at h ⊢
  exact ⟨fun a t' hx => hd a t' (h.1 a t' hx), fun e t' hx => hf e t' (h.2 e t' hx)⟩

/-- Two things that an edit ensures hold together. -/
theorem Ensures.and (h : x.Ensures t done failed) (h' : x.Ensures t done' failed') :
    x.Ensures t (fun a t' => done a t' ∧ done' a t') fun e t' => failed e t' ∧ failed' e t' := by
  rw [ensures_iff] at h h' ⊢
  exact ⟨fun a t' hx => ⟨h.1 a t' hx, h'.1 a t' hx⟩, fun e t' hx => ⟨h.2 e t' hx, h'.2 e t' hx⟩⟩

end

@[simp] theorem on_ofExcept (r : Except Error α) (t : Tree) : (ofExcept r).on t = (r, t) := rfl

section

variable {t : Tree} {failed : Error → Tree → Prop}

@[simp] theorem ensures_pure {a : α} {done : α → Tree → Prop} :
    (pure a : Edit α).Ensures t done failed ↔ done a t := Iff.rfl

@[simp] theorem ensures_throw {e : Error} {done : α → Tree → Prop} :
    (throw e : Edit α).Ensures t done failed ↔ failed e t := Iff.rfl

@[simp] theorem ensures_changing {f : Tree → Tree} {done : Unit → Tree → Prop} :
    (changing f).Ensures t done failed ↔ done () (f t) := Iff.rfl

/-- A reading changes nothing. -/
theorem ensures_reading {f : Tree → Except Error α} {done : α → Tree → Prop} :
    (reading f).Ensures t done failed ↔
      (∀ a, f t = .ok a → done a t) ∧ ∀ e, f t = .error e → failed e t := by
  unfold Ensures
  rw [on_reading]
  cases h : f t <;> simp

/-- What one edit after the other ensures. -/
theorem ensures_bind {x : Edit α} {f : α → Edit β} {done : β → Tree → Prop} :
    (x >>= f).Ensures t done failed ↔
      x.Ensures t (fun a t' => (f a).Ensures t' done failed) failed := by
  unfold Ensures
  rw [on_bind]
  obtain ⟨r, t'⟩ := x.on t
  cases r <;> rfl

/-- The second step starts where the first one ends. -/
theorem Ensures.bind {x : Edit α} {f : α → Edit β} {I : α → Tree → Prop}
    {done : β → Tree → Prop} (hx : x.Ensures t I failed)
    (hf : ∀ a t', I a t' → (f a).Ensures t' done failed) :
    (x >>= f).Ensures t done failed :=
  ensures_bind.2 (hx.mono hf fun _ _ h => h)

/-- After a look at the tree the rest starts from the same tree. -/
theorem ensures_reading_bind {f : Tree → Except Error α} {g : α → Edit β}
    {done : β → Tree → Prop} :
    (reading f >>= g).Ensures t done failed ↔
      (∀ a, f t = .ok a → (g a).Ensures t done failed) ∧ ∀ e, f t = .error e → failed e t := by
  rw [ensures_bind, ensures_reading]

/-- A reading with a known result can be skipped. -/
theorem ensures_reading_bind_of {f : Tree → Except Error α} {a : α} {g : α → Edit β}
    {done : β → Tree → Prop} (h : f t = .ok a) :
    (reading f >>= g).Ensures t done failed ↔ (g a).Ensures t done failed := by
  simp [ensures_reading_bind, h]

/-- A computation outside of the tree goes on with its result or stops with its error. -/
theorem ensures_ofExcept_bind {r : Except Error α} {g : α → Edit β} {done : β → Tree → Prop} :
    (ofExcept r >>= g).Ensures t done failed ↔
      (∀ a, r = .ok a → (g a).Ensures t done failed) ∧ ∀ e, r = .error e → failed e t :=
  ensures_reading_bind

/-- A computation with a known result can be skipped. -/
theorem ensures_ofExcept_bind_of {r : Except Error α} {a : α} {g : α → Edit β}
    {done : β → Tree → Prop} (h : r = .ok a) :
    (ofExcept r >>= g).Ensures t done failed ↔ (g a).Ensures t done failed :=
  ensures_reading_bind_of h

@[simp] theorem ensures_changing_bind {f : Tree → Tree} {g : Unit → Edit β}
    {done : β → Tree → Prop} :
    (changing f >>= g).Ensures t done failed ↔ (g ()).Ensures (f t) done failed := by
  rw [ensures_bind, ensures_changing]

/-- What is caught goes on in the tree in which it was thrown. -/
theorem ensures_tryCatch {x : Edit α} {handler : Error → Edit α} {done : α → Tree → Prop} :
    (tryCatch x handler).Ensures t done failed ↔
      x.Ensures t done fun e t' => (handler e).Ensures t' done failed := by
  unfold Ensures
  rw [on_tryCatch]
  obtain ⟨r, t'⟩ := x.on t
  cases r <;> rfl

/-- A step for each item of a list.  The invariant speaks of the items that are
still to come. -/
theorem ensures_forM {f : α → Edit Unit} {I : List α → Tree → Prop}
    (step : ∀ a as t, I (a :: as) t → (f a).Ensures t (fun _ t' => I as t') failed) :
    ∀ {l : List α} {t : Tree}, I l t →
      (l.forM f).Ensures t (fun _ t' => I [] t') failed
  | [], _, h => h
  | a :: as, t, h => by
    show (f a >>= fun _ => as.forM f).Ensures _ _ _
    exact (step a as t h).bind fun _ t' h' => ensures_forM step h'

end

/-! ## Edits that do the same -/

/-- Two edits that start in the same way and go on in the same way do the same. -/
theorem on_bind_congr {x x' : Edit α} {f f' : α → Edit β} {t : Tree} (hx : x.on t = x'.on t)
    (hf : ∀ a t', x.on t = (.ok a, t') → (f a).on t' = (f' a).on t') :
    (x >>= f).on t = (x' >>= f').on t := by
  rw [on_bind, on_bind, ← hx]
  generalize hr : x.on t = r at hf ⊢
  obtain ⟨_ | a, t'⟩ := r
  · rfl
  · exact hf a t' rfl

/-- Edits that do the same in a tree can be exchanged inside of a handler. -/
theorem on_tryCatch_congr {x x' : Edit α} {handler : Error → Edit α} {t : Tree}
    (hx : x.on t = x'.on t) : (tryCatch x handler).on t = (tryCatch x' handler).on t := by
  rw [on_tryCatch, on_tryCatch, hx]

/-! ## Steps along a relation -/

/-- Every tree is related to the one that the edit leaves. -/
def Leads (R : Tree → Tree → Prop) (x : Edit α) : Prop := ∀ t, R t (x.on t).2

/-- An invariant is not lost. -/
def Keeping (I : Tree → Prop) (t t' : Tree) : Prop := I t → I t'

instance (I : Tree → Prop) : IsPreorder Tree (Keeping I) where
  refl _ h := h
  trans _ _ _ h h' hI := h' (h hI)

/-- What has the invariant has it still, and moves along the relation. -/
def Given (I : Tree → Prop) (R : Tree → Tree → Prop) (t t' : Tree) : Prop := I t → I t' ∧ R t t'

instance (I : Tree → Prop) (R : Tree → Tree → Prop) [IsPreorder Tree R] :
    IsPreorder Tree (Given I R) where
  refl t h := ⟨h, refl_of R t⟩
  trans _ _ _ h h' hI := by
    obtain ⟨hI', hR⟩ := h hI
    obtain ⟨hI'', hR'⟩ := h' hI'
    exact ⟨hI'', trans_of R hR hR'⟩

/-- What holds under an invariant that is kept. -/
theorem leads_given {α : Type} {I : Tree → Prop} {R : Tree → Tree → Prop} {x : Edit α}
    (hI : Leads (Keeping I) x) (h : ∀ t, I t → R t (x.on t).2) : Leads (Given I R) x :=
  fun t ht => ⟨hI t ht, h t ht⟩

section

variable {R : Tree → Tree → Prop}

/-- A relation to the tree before holds whatever the outcome is. -/
theorem ensures_of_rel {x : Edit α} {t : Tree} (h : R t (x.on t).2) :
    x.Ensures t (fun _ => R t) fun _ => R t := by
  rw [ensures_iff]
  exact ⟨fun a t' hx => by rw [hx] at h; exact h, fun e t' hx => by rw [hx] at h; exact h⟩

/-- What is ensured of both outcomes holds of the tree after. -/
theorem rel_of_ensures {x : Edit α} {t : Tree} (h : x.Ensures t (fun _ => R t) fun _ => R t) :
    R t (x.on t).2 := by
  unfold Ensures at h
  generalize x.on t = r at h ⊢
  obtain ⟨_ | _, t'⟩ := r <;> exact h

/-- An edit within a relation ensures it. -/
theorem Leads.ensures {x : Edit α} (h : Leads R x) (t : Tree) :
    x.Ensures t (fun _ => R t) fun _ => R t := ensures_of_rel (h t)

/-- Keeping an invariant, said of where the edit ends. -/
theorem leads_keeping_iff {I : Tree → Prop} {x : Edit α} :
    Leads (Keeping I) x ↔ ∀ t, I t → x.Ensures t (fun _ => I) fun _ => I := by
  constructor
  · intro h t ht
    exact ensures_of_rel (R := fun _ => I) (h t ht)
  · intro h t ht
    exact rel_of_ensures (R := fun _ => I) (h t ht)

/-- An edit that keeps an invariant ensures it. -/
theorem Leads.keeps {I : Tree → Prop} {x : Edit α} (h : Leads (Keeping I) x) {t : Tree} (ht : I t) :
    x.Ensures t (fun _ => I) fun _ => I := leads_keeping_iff.1 h t ht

/-- A change within a relation. -/
theorem leads_changing {f : Tree → Tree} (h : ∀ t, R t (f t)) : Leads R (changing f) := h

variable [IsPreorder Tree R]

theorem leads_pure (a : α) : Leads R (pure a : Edit α) := fun t => refl_of R t

theorem leads_throw (e : Error) : Leads R (throw e : Edit α) := fun t => refl_of R t

/-- A reading stays within any reflexive relation. -/
theorem leads_reading (f : Tree → Except Error α) : Leads R (reading f) := fun t => refl_of R t

theorem leads_ofExcept (r : Except Error α) : Leads R (ofExcept r) := leads_reading _

/-- One edit after the other stays within a transitive relation. -/
theorem rel_bind {x : Edit α} {f : α → Edit β} {t : Tree} (hx : R t (x.on t).2)
    (hf : ∀ a t', x.on t = (.ok a, t') → R t' ((f a).on t').2) : R t ((x >>= f).on t).2 := by
  rw [on_bind]
  generalize hr : x.on t = r at hx hf ⊢
  obtain ⟨_ | a, t'⟩ := r
  · exact hx
  · exact trans_of R hx (hf a t' rfl)

/-- Two edits within a transitive relation, one after the other. -/
theorem Leads.bind {x : Edit α} {f : α → Edit β} (hx : Leads R x) (hf : ∀ a, Leads R (f a)) :
    Leads R (x >>= f) := fun t => rel_bind (hx t) fun a t' _ => hf a t'

/-- After a look at the tree it is known what was seen. -/
theorem leads_reading_bind {f : Tree → Except Error α} {g : α → Edit β}
    (h : ∀ t a, f t = .ok a → R t ((g a).on t).2) : Leads R (reading f >>= g) := by
  intro t
  refine rel_bind (leads_reading f t) fun a t' hx => ?_
  rw [on_reading, Prod.mk.injEq] at hx
  obtain ⟨ha, rfl⟩ := hx
  exact h t a ha

/-- An edit and its handler within a transitive relation. -/
theorem Leads.tryCatch {x : Edit α} {handler : Error → Edit α} (hx : Leads R x)
    (hh : ∀ e, Leads R (handler e)) : Leads R (tryCatch x handler) := by
  intro t
  have h := hx t
  rw [on_tryCatch]
  generalize x.on t = r at h ⊢
  obtain ⟨e | a, t'⟩ := r
  · exact trans_of R h (hh e t')
  · exact h

/-- A traversal stays within a relation if each of its steps does. -/
theorem leads_forM {f : α → Edit Unit} {as : List α} (h : ∀ a ∈ as, Leads R (f a)) :
    Leads R (as.forM f) := by
  induction as with
  | nil => exact leads_pure ()
  | cons a as ih =>
    show Leads R (f a >>= fun _ => as.forM f)
    exact (h a List.mem_cons_self).bind fun _ =>
      ih fun b hb => h b (List.mem_cons_of_mem a hb)

end

end Edit

namespace Tree

open Edit

variable {α : Type} {t : Tree} {failed : Error → Tree → Prop}

/-- Reading an element finds what stands in its slot. -/
theorem element_eq_ok_iff {id : ElementId} {e : Element} :
    t.element id = .ok e ↔ t.element? id = some e := by
  unfold element
  cases t.element? id <;> simp

/-- Reading an element fails exactly if its slot is empty. -/
theorem element_eq_error_iff {id : ElementId} {err : Error} :
    t.element id = .error err ↔ t.element? id = none ∧ err = .elementNotFound id := by
  unfold element
  cases t.element? id <;> simp [eq_comm]

/-- Looking an element up, and going on with it. -/
theorem ensures_get_bind {id : ElementId} {g : Element → Edit α} {done : α → Tree → Prop} :
    (get id >>= g).Ensures t done failed ↔
      (∀ e, t.element? id = some e → (g e).Ensures t done failed) ∧
        (t.element? id = none → failed (.elementNotFound id) t) := by
  rw [get, ensures_reading_bind]
  simp [element_eq_ok_iff, element_eq_error_iff]

/-- What changing an element ensures. -/
theorem ensures_update {id : ElementId} {f : Element → Element} {done : Unit → Tree → Prop} :
    (update id f).Ensures t done failed ↔
      (∀ e, t.element? id = some e → done () (t.modifyElement id f)) ∧
        (t.element? id = none → failed (.elementNotFound id) t) := by
  rw [Ensures, on_update, element]
  cases t.element? id <;> simp

/-- An element that is there is read and updated without fail. -/
theorem ensures_get_bind_of {id : ElementId} {e : Element} {g : Element → Edit α}
    {done : α → Tree → Prop} (he : t.element? id = some e) : (get id >>= g).Ensures t done failed ↔
      (g e).Ensures t done failed := by
  simp [ensures_get_bind, he]

/-- Changing an element that is known to be there. -/
theorem ensures_update_of {id : ElementId} {e : Element} {f : Element → Element}
    {done : Unit → Tree → Prop} (he : t.element? id = some e) :
    (update id f).Ensures t done failed ↔ done () (t.modifyElement id f) := by
  simp [ensures_update, he]

/-- An update that moves every tree along a relation. -/
theorem leads_update {R : Tree → Tree → Prop} [IsPreorder Tree R] {id : ElementId}
    {f : Element → Element} (h : ∀ t e, t.element? id = some e → R t (t.modifyElement id f)) :
    Leads R (update id f) := by
  intro t
  rw [on_update, element]
  cases he : t.element? id with
  | none => exact refl_of R t
  | some e => exact h t e he

end Tree

end DataTree
