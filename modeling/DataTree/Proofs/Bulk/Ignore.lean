import DataTree.Proofs.Items
import DataTree.Proofs.Reset.Idle

/-!
# DataTree.Proofs.Bulk.Ignore

Edits that do not care what items a leaf-list holds.

An edit ignores the leaf-list `x` if, with other items in `x`, it gives the same result and
leaves the same tree but for these items (`Ignores`).  Nothing looks at the items of a
leaf-list but what clears it or removes it.  So unsetting something that `x` is not under
ignores `x` (`ignores_unset`), marking does (`ignores_markChanged`), and a plan does that
takes nothing that `x` is under (`ignores_commit`).
-/

namespace DataTree

open Edit Outcome

namespace Tree

variable {t t' : Tree} {id a b x : ElementId} {e : Element} {l : LeafList} {α β : Type}

/-! ## Changes that do not meet -/

/-- Changes of elements may be made in either order, if those of the same element may. -/
theorem modifyElement_comm {f g : Element → Element}
    (h : a = b → ∀ e, t.element? a = some e → f (g e) = g (f e)) :
    (t.modifyElement a f).modifyElement b g = (t.modifyElement b g).modifyElement a f := by
  have hslots : (t.slots.modify a.index (Option.map f)).modify b.index (Option.map g)
      = (t.slots.modify b.index (Option.map g)).modify a.index (Option.map f) := by
    refine Array.ext_getElem? fun i => ?_
    simp only [Array.getElem?_modify]
    by_cases ha : a.index = i <;> by_cases hb : b.index = i
    · have hab : a = b := by
        obtain ⟨a⟩ := a
        obtain ⟨b⟩ := b
        exact congrArg ElementId.mk (ha.trans hb.symm)
      simp only [ha, hb, if_true]
      cases hs : t.slots[i]? with
      | none => rfl
      | some o =>
        cases o with
        | none => rfl
        | some e =>
          have he : t.element? a = some e := by rw [element?, ha, hs]; rfl
          exact congrArg (some ∘ some) (h hab e he).symm
    all_goals simp [ha, hb]
  rw [modifyElement, modifyElement, modifyElement, modifyElement, hslots]

theorem element?_withContent_of_ne (h : id ≠ x) (content : Content) :
    (t.withContent x content).element? id = t.element? id := element?_modifyElement_of_ne h _

/-- The later content stays. -/
theorem withContent_withContent (t : Tree) (x : ElementId) (c c' : Content) :
    (t.withContent x c).withContent x c' = t.withContent x c' := by
  have hslots : (t.slots.modify x.index
    (Option.map fun e => { e with content := c })).modify x.index
      (Option.map fun e => { e with content := c' })
      = t.slots.modify x.index (Option.map fun e => { e with content := c' }) := by
    refine Array.ext_getElem? fun i => ?_
    simp only [Array.getElem?_modify]
    split
    · cases t.slots[i]? with
      | none => rfl
      | some o => cases o <;> rfl
    · rfl
  simp only [withContent, modifyElement, hslots]

/-- Registering has nothing to do with what a leaf-list holds. -/
theorem withContent_register (t : Tree) (x : ElementId) (content : Content) (e : Element)
    (path : String) (target : Target) :
    (t.withContent x content).register e path target =
      (t.register e path target).withContent x content := by
  unfold register
  split <;> rfl

/-- Nor has unregistering. -/
theorem withContent_unregister (t : Tree) (x : ElementId) (content : Content) (e : Element)
    (path : String) (target : Target) :
    (t.withContent x content).unregister e path target =
      (t.unregister e path target).withContent x content := by
  unfold unregister
  split <;> rfl

/-- Nor has registering the items of another element. -/
theorem withContent_registerMembers (t : Tree) (x : ElementId) (content : Content) (e : Element)
    (items : List Value) :
    items.foldl (fun t item => t.registerMember e item) (t.withContent x content)
      = (items.foldl (fun t item => t.registerMember e item) t).withContent x content := by
  induction items generalizing t with
  | nil => rfl
  | cons item items ih =>
    rw [List.foldl_cons, registerMember, withContent_register]
    exact ih _

theorem withContent_unregisterMembers (t : Tree) (x : ElementId) (content : Content) (e : Element)
    (items : List Value) :
    items.foldl (fun t item => t.unregisterMember e item) (t.withContent x content)
      = (items.foldl (fun t item => t.unregisterMember e item) t).withContent x content := by
  induction items generalizing t with
  | nil => rfl
  | cons item items ih =>
    rw [List.foldl_cons, unregisterMember, withContent_unregister]
    exact ih _

/-! ## A leaf-list with other items -/

/-- The element is a leaf-list, if it is there. -/
def Itemized (t : Tree) (x : ElementId) : Prop :=
  ∀ ⦃e⦄, t.element? x = some e → ∃ l, e.content = .leafList l

theorem Itemized.shrinks (h : t.Itemized x) (hs : t.Shrinks t') : t'.Itemized x := by
  intro e' he'
  obtain ⟨e, he, hse⟩ := hs.element he'
  obtain ⟨l, hl⟩ := h he
  have hbare := Element.content_of_bare hse.bare
  rw [hl] at hbare
  cases hc : e'.content with
  | leafList l' => exact ⟨l', rfl⟩
  | _ =>
    rw [hc] at hbare
    simp [Content.bare] at hbare

/-- With other items the leaf-list is what it was to everything that does not look at items. -/
theorem Itemized.element (h : t.Itemized x) (l : LeafList) (id : ElementId) :
    (t.withContent x (.leafList l)).element? id = t.element? id ∨
      ∃ e l₀, t.element? id = some e ∧ e.content = .leafList l₀ ∧ id = x ∧
        (t.withContent x (.leafList l)).element? id = some { e with content := .leafList l } := by
  by_cases hid : id = x
  · subst hid
    cases he : t.element? id with
    | none => exact .inl (by rw [withContent, element?_modifyElement, he]; simp)
    | some e =>
      obtain ⟨l₀, hl₀⟩ := h he
      exact .inr ⟨e, l₀, rfl, hl₀, rfl, element?_modifyElement_self he⟩
  · exact .inl (element?_withContent_of_ne hid _)

/-- A subtree is found without looking at items. -/
theorem Itemized.subtreeFrom (h : t.Itemized x) (l : LeafList) (fuel : Nat) (id : ElementId) :
    (t.withContent x (.leafList l)).subtreeFrom fuel id = t.subtreeFrom fuel id := by
  induction fuel generalizing id with
  | zero => rfl
  | succ fuel ih =>
    have hrec : (t.withContent x (.leafList l)).subtreeFrom fuel = t.subtreeFrom fuel := funext ih
    rw [Tree.subtreeFrom, Tree.subtreeFrom, hrec]
    obtain heq | ⟨e, l₀, he, hl₀, -, heq⟩ := h.element l id
    · rw [Tree.element, Tree.element, heq]
    · have hbelow : ({ e with content := .leafList l } : Element).below = e.below := by
        simp [Element.below, hl₀, Content.entries]
      rw [Tree.element, Tree.element, heq, he]
      show (_ : Except Error _) = _
      simp only [bind, Except.bind, hbelow]

/-- So are the elements that hold data. -/
theorem Itemized.holdersFrom (h : t.Itemized x) (l : LeafList) (fuel : Nat) (id : ElementId) :
    (t.withContent x (.leafList l)).holdersFrom fuel id = t.holdersFrom fuel id := by
  induction fuel generalizing id with
  | zero => rfl
  | succ fuel ih =>
    have hrec : (t.withContent x (.leafList l)).holdersFrom fuel = t.holdersFrom fuel := funext ih
    rw [Tree.holdersFrom, Tree.holdersFrom, hrec]
    obtain heq | ⟨e, l₀, he, hl₀, -, heq⟩ := h.element l id
    · rw [Tree.element, Tree.element, heq]
    · rw [Tree.element, Tree.element, heq, he]
      simp only [bind, Except.bind, hl₀, Content.isContainer]
      rfl

/-- What looking for holders finds is within. -/
theorem within_of_mem_holdersFrom {fuel : Nat} {hs : List ElementId}
    (h : t.holdersFrom fuel id = .ok hs) (ha : a ∈ hs) : t.Within id a := by
  induction fuel generalizing id hs with
  | zero => cases h
  | succ fuel ih =>
    rw [Tree.holdersFrom, bind_eq_ok] at h
    obtain ⟨e, he, h⟩ := h
    split at h
    · obtain ⟨below, hbelow, h⟩ := bind_eq_ok.1 h
      obtain rfl := pure_eq_ok.1 h
      obtain ⟨hs', hm, ha⟩ := List.mem_flatten.1 ha
      obtain ⟨c, hc, hcs⟩ := mem_of_mapM hbelow hm
      obtain ⟨⟨name, c⟩, hm, rfl⟩ := List.mem_map.1 hc
      exact .head ⟨e, name, element_eq_ok_iff.1 he, hm⟩ (ih hcs ha)
    · obtain rfl := pure_eq_ok.1 h
      rw [List.mem_singleton.1 ha]
      exact .refl

/-! ## Ignoring -/

/-- With other items in `x` the edit does the same, and leaves them alone. -/
def Ignores (y : Edit α) (x : ElementId) (t : Tree) : Prop :=
  ∀ l : LeafList, y.on (t.withContent x (.leafList l)) =
    ((y.on t).1, (y.on t).2.withContent x (.leafList l))

/-- Nothing is done. -/
theorem ignores_pure (v : α) : Ignores (pure v : Edit α) x t := fun _ => rfl

/-- A reading that does not look at the items. -/
theorem ignores_reading {f : Tree → Except Error α}
    (h : ∀ l, f (t.withContent x (.leafList l)) = f t) :
    Ignores (reading f) x t := fun l => by rw [on_reading, on_reading, h l]

/-- A change that has nothing to do with the items. -/
theorem ignores_changing {f : Tree → Tree}
    (h : ∀ l, f (t.withContent x (.leafList l)) = (f t).withContent x (.leafList l)) :
    Ignores (changing f) x t := fun l => by rw [on_changing, on_changing, h l]

/-- One edit after the other, neither of which looks at the items. -/
theorem Ignores.bind {y : Edit α} {f : α → Edit β} (hy : Ignores y x t)
    (hf : ∀ v t', y.on t = (.ok v, t') → Ignores (f v) x t') : Ignores (y >>= f) x t := by
  intro l
  rw [on_bind, on_bind, hy l]
  generalize hr : y.on t = r at hf ⊢
  obtain ⟨err | v, t'⟩ := r
  · rfl
  · exact hf v t' rfl l

/-- Steps that ignore `x` on every tree that the tree may have shrunk to. -/
theorem ignores_forM {f : α → Edit Unit} {as : List α} (hs : ∀ v ∈ as, Leads Shrinks (f v))
    (h : ∀ v ∈ as, ∀ t', t.Shrinks t' → Ignores (f v) x t') : Ignores (as.forM f) x t := by
  induction as generalizing t with
  | nil => exact ignores_pure ()
  | cons v as ih =>
    show Ignores (f v >>= fun _ => as.forM f) x t
    refine (h v List.mem_cons_self t (refl_of Shrinks t)).bind fun _ t₁ hrun => ?_
    have ht₁ : t.Shrinks t₁ := by
      have hstep := hs v List.mem_cons_self t
      rwa [hrun] at hstep
    exact ih (fun w hw => hs w (List.mem_cons_of_mem v hw)) fun w hw t₂ ht₂ =>
      h w (List.mem_cons_of_mem v hw) t₂ (trans_of Shrinks ht₁ ht₂)

/-- Changing an element in a way that leaves its content alone, or changing another one. -/
theorem Itemized.ignores_update {f : Element → Element} (h : t.Itemized x)
    (hf : id = x → ∀ (e : Element) (l : LeafList),
      f { e with content := .leafList l } = { f e with content := .leafList l }) :
    Ignores (update id f) x t := by
  intro l
  have hcomm :=
    modifyElement_comm (t := t) (a := x) (b := id) (f := fun e => { e with content := .leafList l })
    (g := f) fun hx e _ => (hf hx.symm e l).symm
  rw [on_update, on_update]
  obtain heq | ⟨e, l₀, he, -, -, heq⟩ := h.element l id
  · rw [Tree.element, Tree.element, heq]
    cases t.element? id with
    | none => rfl
    | some e => exact Prod.ext rfl hcomm
  · rw [Tree.element, Tree.element, heq, he]
    exact Prod.ext rfl hcomm

/-- Marks have nothing to do with items. -/
theorem Itemized.ignores_markChanged (h : t.Itemized x) (ids : List ElementId) :
    Ignores (markChanged ids) x t :=
  ignores_forM (fun _ _ => shrinks_update fun _ => rfl) fun _ _ _ hs =>
    (h.shrinks hs).ignores_update fun _ _ _ => rfl

/-! ## Removing and unsetting something else -/

/-- Emptying one slot and changing another do not concern each other. -/
theorem modify_setIfInBounds_comm (h : a ≠ x) {slots : Array (Option Element)}
    {f : Option Element → Option Element} :
    (slots.modify x.index f).setIfInBounds a.index none
      = (slots.setIfInBounds a.index none).modify x.index f := by
  have hne : a.index ≠ x.index := fun hi => h (by cases a; cases x; exact congrArg ElementId.mk hi)
  refine Array.ext_getElem? fun i => ?_
  simp only [Array.getElem?_modify, Array.getElem?_setIfInBounds, Array.size_modify]
  by_cases ha : a.index = i
  · simp only [ha, if_true]
    have hxi : ¬ x.index = i := fun hx => hne (ha.trans hx.symm)
    rw [if_neg hxi]
  · simp only [ha, if_false]

/-- Dropping another element leaves the items. -/
theorem drop_withContent (h : a ≠ x) (l : LeafList) :
    (t.withContent x (.leafList l)).drop a = (t.drop a).withContent x (.leafList l) := by
  cases he : t.element? a with
  | none => rw [drop_of_none he, drop_of_none ((element?_withContent_of_ne h _).trans he)]
  | some e =>
    have hvacate : (t.withContent x (.leafList l)).vacate a =
        (t.vacate a).withContent x (.leafList l) := by
      simp only [withContent, modifyElement, vacate, modify_setIfInBounds_comm h]
    rw [drop_of_some he, drop_of_some ((element?_withContent_of_ne h _).trans he), hvacate,
      withContent_unregisterMembers, withContent_unregister]

/-- So does dropping several. -/
theorem foldl_drop_withContent {doomed : List ElementId} (h : x ∉ doomed) (l : LeafList)
    (t : Tree) :
    doomed.foldl drop (t.withContent x (.leafList l)) =
      (doomed.foldl drop t).withContent x (.leafList l) := by
  induction doomed generalizing t with
  | nil => rfl
  | cons a doomed ih =>
    rw [List.mem_cons, not_or] at h
    rw [List.foldl_cons, drop_withContent (Ne.symm h.1)]
    exact ih h.2 _

/-- A leaf-list has nothing to detach. -/
theorem Itemized.detach_withContent (h : t.Itemized x) (e : Element) (l : LeafList) :
    (t.withContent x (.leafList l)).detach e = (t.detach e).withContent x (.leafList l) := by
  unfold detach
  cases e.parent with
  | none => rfl
  | some parent =>
    refine modifyElement_comm fun hx e' he' => ?_
    obtain ⟨l₀, hl₀⟩ := h he'
    simp [Element.detach, hl₀]

/-- A subtree without the leaf-list is removed without looking at its items. -/
theorem Itemized.ignores_removeSubtree (h : t.Itemized x) (hno : ¬ t.Under a x) :
    Ignores (removeSubtree a) x t := by
  refine Ignores.bind (ignores_reading fun l => ?_) fun doomed t₁ hrun => ?_
  · rw [subtree, subtree, h.subtreeFrom]
    simp [withContent]
  rw [on_reading, Prod.mk.injEq] at hrun
  obtain ⟨hdoomed, rfl⟩ := hrun
  have hnot : x ∉ doomed := fun hx => hno ((mem_subtreeFrom_iff hdoomed).1 hx)
  have hax : a ≠ x := fun hax => hno (hax ▸ .refl)
  refine Ignores.bind (ignores_reading fun l => ?_) fun e t₁ hrun => ?_
  · rw [Tree.element, Tree.element, element?_withContent_of_ne hax]
  rw [on_get, Prod.mk.injEq] at hrun
  obtain ⟨-, rfl⟩ := hrun
  exact ignores_changing fun l => by rw [h.detach_withContent, foldl_drop_withContent hnot]

/-- Clearing another element does not look at the items. -/
theorem Itemized.ignores_clear (h : t.Itemized x) (hno : ¬ t.Under a x) :
    Ignores (clear a) x t := by
  have hax : a ≠ x := fun hax => hno (hax ▸ .refl)
  refine Ignores.bind (ignores_reading fun l => ?_) fun e t₁ hrun => ?_
  · rw [Tree.element, Tree.element, element?_withContent_of_ne hax]
  rw [on_get, Prod.mk.injEq, element_eq_ok_iff] at hrun
  obtain ⟨he, rfl⟩ := hrun
  have hother : ∀ f, Ignores (update a f) x t := fun f => h.ignores_update fun hx => absurd hx hax
  split
  · next l hl =>
    refine (hother _).bind fun _ t₁ hrun => ?_
    have hs : t.Shrinks t₁ := by
      rw [on_update, element_eq_ok_iff.2 he] at hrun
      obtain rfl := congrArg Prod.snd hrun
      exact shrinks_unlink he hl List.nil_subperm rfl
    refine ignores_forM (fun entry _ => shrinks_removeSubtree entry) fun entry hentry t₂ hs₂ => ?_
    have hs' := trans_of Shrinks hs hs₂
    refine (h.shrinks hs').ignores_removeSubtree fun hu => hno (.head ⟨e, he, ?_⟩ (hs'.under hu))
    rw [Element.below, hl]
    exact List.mem_append_right _ hentry
  · refine Ignores.bind (ignores_reading fun _ => rfl) fun r t₁ hrun => ?_
    obtain rfl := congrArg Prod.snd hrun
    refine (hother _).bind fun _ t₁ _ => ?_
    exact ignores_changing fun l => withContent_unregisterMembers _ _ _ _ _

/-- **Unsetting something else** does not care what items a leaf-list holds. -/
theorem Itemized.ignores_unset (h : t.Itemized x) (hno : ¬ t.Under a x) :
    Ignores (unset a) x t := by
  refine Ignores.bind (ignores_reading fun l => ?_) fun holders t₁ hrun => ?_
  · rw [Tree.holders, Tree.holders, h.holdersFrom]
    simp [withContent]
  rw [on_reading, Prod.mk.injEq] at hrun
  obtain ⟨hholders, rfl⟩ := hrun
  refine ignores_forM (fun holder _ => shrinks_clear holder) fun holder hm t₁ hs => ?_
  refine (h.shrinks hs).ignores_clear fun hu => hno ?_
  exact (within_of_mem_holdersFrom hholders hm).under.trans (hs.under hu)

/-- **Carrying out a plan** does not care what items a leaf-list holds that it takes nothing of. -/
theorem Itemized.ignores_commit {p : Plan} (h : t.Itemized x)
    (hgood : ∀ hook ∈ p.unsets, ∃ c, hook = .contents c) (hfree : t.Free p.unsets x) :
    Ignores (commit p) x t := by
  have hrun : Ignores (runUnsets p.unsets) x t := by
    refine ignores_forM (fun hook _ => shrinks_runUnset hook) fun hook hm t₁ hs => ?_
    obtain ⟨c, rfl⟩ := hgood hook hm
    exact (h.shrinks hs).ignores_unset fun hu => hfree c hm (hs.under hu)
  refine hrun.bind fun _ t₁ hon => ?_
  have hs : t.Shrinks t₁ := by
    have hstep := shrinks_runUnsets p.unsets t
    rwa [hon] at hstep
  exact (h.shrinks hs).ignores_markChanged p.marks

end Tree

end DataTree
