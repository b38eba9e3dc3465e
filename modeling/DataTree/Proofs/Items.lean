import DataTree.Proofs.Slots
import DataTree.Tree.Change

/-!
# DataTree.Proofs.Items

Changing items, step by step: the plan is made, the content changes, the plan is carried
out, and the items are registered or no longer are.
-/

namespace DataTree.Tree

open Edit

variable {t : Tree} {id : ElementId} {e : Element}

/-- The tree with another content of an element. -/
def withContent (t : Tree) (id : ElementId) (content : Content) : Tree :=
  t.modifyElement id fun e => { e with content }

/-- Changing an item: the content changes, the plan is carried out, and the item is registered or
no longer is. -/
theorem ensures_editItem {op : ItemEdit} {done : Value → Tree → Prop} {failed : Error → Tree → Prop}
    (stop : ∀ err, failed err t)
    (go : ∀ {p e item content}, t.plan id none = .ok p → t.element? id = some e →
      e.content.edit op = .ok (item, content) →
      (commit p).Ensures (t.withContent id content) (fun _ t₂ =>
        (∀ e₂, t₂.element? id = some e₂ →
          done item (if op.adds then t₂.registerMember e₂ item else t₂.unregisterMember e₂ item)) ∧
          (t₂.element? id = none → failed (.elementNotFound id) t₂)) failed) :
    (editItem id op).Ensures t done failed := by
  rw [editItem, ensures_reading_bind]
  refine ⟨fun p hp => ?_, fun err _ => stop err⟩
  rw [ensures_get_bind]
  refine ⟨fun e he => ?_, fun _ => stop _⟩
  rw [ensures_ofExcept_bind]
  refine ⟨fun r hr => ?_, fun err _ => stop err⟩
  obtain ⟨item, content⟩ := r
  rw [ensures_bind, ensures_update]
  refine ⟨fun _ _ => ?_, fun _ => stop _⟩
  refine (go hp he hr).bind fun _ t₂ h₂ => ?_
  rw [ensures_get_bind]
  exact ⟨fun e₂ he₂ => by rw [ensures_changing_bind]; exact h₂.1 e₂ he₂, h₂.2⟩

/-- Registering items one after another. -/
theorem on_registerMembers (he : t.element? id = some e) (items : List Value) :
    (items.forM fun item => do
      let e ← get id
      changing fun t => t.registerMember e item : Edit Unit).on t
      = (.ok (), items.foldl (fun t item => t.registerMember e item) t) := by
  induction items generalizing t with
  | nil => rfl
  | cons item items ih =>
    have he' : (t.registerMember e item).element? id = some e :=
      (element?_congr (slots_register t e _ _) id).trans he
    have hel : t.element id = .ok e := element_eq_ok_iff.2 he
    show ((get id >>= fun e => changing fun t => t.registerMember e item) >>= fun _ =>
      items.forM _ : Edit Unit).on t = _
    simp only [on_bind, on_get, hel, on_changing]
    exact ih he'

theorem slots_foldl_registerMember (e : Element) (items : List Value) (t : Tree) :
    (items.foldl (fun t item => t.registerMember e item) t).slots = t.slots := by
  induction items generalizing t with
  | nil => rfl
  | cons item items ih => exact (ih _).trans (slots_register t e _ _)

/-- Adding several items: the content changes, the plan is carried out, and the items are
registered one after another. -/
theorem ensures_extend {raws : List Value} {done : List Value → Tree → Prop}
    {failed : Error → Tree → Prop} (stop : ∀ err, failed err t)
    (go : ∀ {p e items content}, t.plan id none = .ok p → t.element? id = some e →
      e.content.extend raws = .ok (items, content) →
      (commit p).Ensures (t.withContent id content) (fun _ t₂ =>
        (∀ e₂, t₂.element? id = some e₂ →
          done items (items.foldl (fun t item => t.registerMember e₂ item) t₂)) ∧
          (t₂.element? id = none → done items t₂ ∧ failed (.elementNotFound id) t₂)) failed) :
    (extend id raws).Ensures t done failed := by
  rw [extend, ensures_reading_bind]
  refine ⟨fun p hp => ?_, fun err _ => stop err⟩
  rw [ensures_get_bind]
  refine ⟨fun e he => ?_, fun _ => stop _⟩
  rw [ensures_ofExcept_bind]
  refine ⟨fun r hr => ?_, fun err _ => stop err⟩
  obtain ⟨items, content⟩ := r
  rw [ensures_bind, ensures_update]
  refine ⟨fun _ _ => ?_, fun _ => stop _⟩
  refine (go hp he hr).bind fun _ t₂ h₂ => ?_
  cases he₂ : t₂.element? id with
  | some e₂ =>
    rw [ensures_bind, ensures_of_ok (on_registerMembers he₂ items)]
    exact h₂.1 e₂ he₂
  | none =>
    cases items with
    | nil => exact (h₂.2 he₂).1
    | cons item items =>
      rw [ensures_bind]
      show ((get id >>= fun e => changing fun t => t.registerMember e item) >>= fun _ =>
        items.forM _ : Edit Unit).Ensures t₂ _ _
      rw [ensures_bind, ensures_get_bind]
      exact ⟨fun e₂ hsome => (by rw [he₂] at hsome; cases hsome), fun _ => (h₂.2 he₂).2⟩

end DataTree.Tree
