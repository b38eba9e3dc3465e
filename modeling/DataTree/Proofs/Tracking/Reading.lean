import DataTree.Proofs.Tracking.Entry
import DataTree.Tree.Read

/-!
# DataTree.Proofs.Tracking.Reading

What a filtered snapshot shows.

It is the full snapshot without the children of containers that are not marked
(`Tended.snapshot_true`); for such a child can always be read.  And since marks go all the way
up, whatever is marked has its place in it (`Tended.value_of_locate`).
-/

namespace DataTree

open Edit Outcome

/-- The value at a place: names lead into tables. -/
def Value.at? (v : Value) : List String → Option Value
  | [] => some v
  | name :: path =>
    match v with
    | .map fields => (Assoc.get? name fields).bind (·.at? path)
    | _ => none

/-- Containers and lists, which have elements below them. -/
def Content.branches : Content → Bool
  | .container | .list _ => true
  | _ => false

/-- The child of a container of a name, or the entry of a list under a key. -/
def Element.below? (e : Element) (name : String) : Option ElementId :=
  match e.content with
  | .container => e.child? name
  | .list l => l.get? name
  | _ => none

namespace Tree

variable {t : Tree} {id c x : ElementId} {e : Element} {v : Value} {fuel : Nat} {filtered : Bool}

/-- Follow names and keys downwards. -/
def locate (t : Tree) (id : ElementId) : List String → Option ElementId
  | [] => some id
  | name :: path => do
    let e ← t.element? id
    let c ← e.below? name
    t.locate c path

def isMarked (t : Tree) (id : ElementId) : Bool := (t.element? id).any (·.changed)

/-- What a filtered snapshot shows of what is below an element. -/
def shown? (t : Tree) (e : Element) (name : String) : Option ElementId :=
  match e.content with
  | .container => (e.child? name).filter t.isMarked
  | .list l => l.get? name
  | _ => none

mutual

/-- The snapshot of an element without the children of containers that are not marked. -/
def prune (t : Tree) (id : ElementId) : Value → Value
  | .map fields =>
    match t.element? id with
    | some e => if e.content.branches then .map (t.pruneFields e fields) else .map fields
    | none => .map fields
  | v => v

def pruneFields (t : Tree) (e : Element) : List (String × Value) → List (String × Value)
  | [] => []
  | (name, v) :: rest =>
    match t.shown? e name with
    | some c => (name, t.prune c v) :: t.pruneFields e rest
    | none => t.pruneFields e rest

end

/-! ## Reading one level -/

/-- Read an element that has a name or a key. -/
def readNamed (t : Tree) (fuel : Nat) (filtered : Bool) (m : String × ElementId) :
    Except Error (String × Value) :=
  (t.snapshotFrom fuel filtered m.2).map fun v => (m.1, v)

/-- A container reads as its children read. -/
theorem snapshotFrom_container (he : t.element? id = some e) (hc : e.content = .container) :
    t.snapshotFrom (fuel + 1) filtered id =
      (t.shownChildren filtered e >>= fun cs =>
        (cs.mapM (t.readNamed fuel filtered)).map Value.map) := by
  rw [snapshotFrom, element_eq_ok_iff.2 he]
  simp only [bind, Except.bind, hc]
  rfl

/-- A list reads as its entries read. -/
theorem snapshotFrom_list (he : t.element? id = some e) {l : KeyedList} (hl : e.content = .list l) :
    t.snapshotFrom (fuel + 1) filtered id =
      (l.members.mapM (t.readNamed fuel filtered)).map Value.map := by
  rw [snapshotFrom, element_eq_ok_iff.2 he]
  simp only [bind, Except.bind, hl]
  rfl

/-- Without elements below, there is nothing to filter. -/
theorem snapshotFrom_of_not_branches (he : t.element? id = some e)
    (hb : e.content.branches = false) :
    t.snapshotFrom (fuel + 1) filtered id = t.snapshotFrom (fuel + 1) false id := by
  rw [snapshotFrom, snapshotFrom, element, he]
  cases hc : e.content with
  | container => rw [hc] at hb; cases hb
  | list l => rw [hc] at hb; cases hb
  | leaf slot => simp only [bind, Except.bind, hc]
  | leafList l => simp only [bind, Except.bind, hc]
  | custom c => simp only [bind, Except.bind, hc]

/-! ## What is shown -/

theorem isMarked_eq (he : t.element? id = some e) : t.isMarked id = e.changed := by
  rw [isMarked, he]
  rfl

theorem shownChildren_false (t : Tree) (e : Element) :
    t.shownChildren false e = .ok e.children := rfl

/-- All children are there, and those that are marked are shown. -/
theorem Linked.shownChildren_true (h : t.Linked) (he : t.element? id = some e) :
    t.shownChildren true e = .ok (e.children.filter fun m => t.isMarked m.2) := by
  rw [shownChildren, if_pos rfl]
  refine filterM_eq_ok fun m hm => ?_
  obtain ⟨-, ce, hce, -⟩ := h.child he hm
  simp only [element_eq_ok_iff.2 hce, isMarked_eq hce]
  rfl

/-- What is below an element that is not marked is not marked either. -/
theorem Tended.not_changed (h : t.Tended) (he : t.element? id = some e) (hc : e.changed = false)
    (hm : c ∈ e.below) : ∃ ce, t.element? c = some ce ∧ ce.changed = false := by
  obtain ⟨ce, hce, hpar⟩ := h.linked.of_mem_below he hm
  refine ⟨ce, hce, ?_⟩
  rw [← Bool.not_eq_true]
  intro hchanged
  have hmark := (h.tracked.above hce hchanged hpar he).resolve_right (by simp)
  rw [hc] at hmark
  cases hmark

/-- An element that is not marked can be read: nothing below it holds a pointer. -/
theorem Tended.exists_snapshotFrom (h : t.Tended) (he : t.element? id = some e)
    (hc : e.changed = false) (hfuel : t.slots.size ≤ id.index + fuel) :
    ∃ v, t.snapshotFrom fuel false id = .ok v := by
  induction fuel generalizing id e with
  | zero => exact absurd (index_lt_of_element? he) (Nat.not_lt.2 hfuel)
  | succ fuel ih =>
    have hbelow : ∀ m : String × ElementId, m.2 ∈ e.below →
        ∃ v, t.readNamed fuel false m = .ok v := by
      intro m hm
      obtain ⟨ce, hce, hcc⟩ := h.not_changed he hc hm
      have hlt := h.linked.index_lt he hm
      obtain ⟨v, hv⟩ := ih hce hcc (by omega)
      exact ⟨(m.1, v), by rw [readNamed, hv]; rfl⟩
    cases hcont : e.content with
    | container =>
      obtain ⟨vs, hvs⟩ := exists_mapM_eq_ok fun m hm =>
        hbelow m (Element.mem_below_of_child hm)
      refine ⟨.map vs, ?_⟩
      rw [snapshotFrom_container he hcont, shownChildren_false]
      exact congrArg (Except.map Value.map) hvs
    | list l =>
      obtain ⟨vs, hvs⟩ := exists_mapM_eq_ok fun m (hm : m ∈ l.members) =>
        hbelow m (Element.mem_below_of_entry hcont hm)
      refine ⟨.map vs, ?_⟩
      rw [snapshotFrom_list he hcont]
      exact congrArg (Except.map Value.map) hvs
    | leaf slot =>
      have hnone : slot.value = none := by
        rw [← Option.not_isSome_iff_eq_none]
        intro hsome
        have hassigned : e.content.assigned = true := by rw [hcont]; exact hsome
        have hmark := (h.tracked.assigned he hassigned).resolve_right (by simp)
        rw [hc] at hmark
        cases hmark
      refine ⟨e.default, ?_⟩
      rw [snapshotFrom, element_eq_ok_iff.2 he]
      simp only [bind, Except.bind, hcont, hnone]
      rfl
    | leafList l =>
      refine ⟨(Content.leafList l).snapshot, ?_⟩
      rw [snapshotFrom, element_eq_ok_iff.2 he]
      simp only [bind, Except.bind, hcont]
      rfl
    | custom c =>
      refine ⟨(Content.custom c).snapshot, ?_⟩
      rw [snapshotFrom, element_eq_ok_iff.2 he]
      simp only [bind, Except.bind, hcont]
      rfl

/-! ## Filtering -/

/-- Reading what is shown, out of `ms`, gives what is left of reading it all. -/
theorem mapM_filter {ms : List (String × ElementId)} (shows : String × ElementId → Bool)
    (hshown : ∀ m ∈ ms, t.shown? e m.1 = if shows m then some m.2 else none)
    (hread : ∀ m ∈ ms, shows m = true →
      t.snapshotFrom fuel true m.2 = (t.snapshotFrom fuel false m.2).map (t.prune m.2))
    (hskip : ∀ m ∈ ms, shows m = false → ∃ v, t.snapshotFrom fuel false m.2 = .ok v) :
    (ms.filter shows).mapM (t.readNamed fuel true)
      = (ms.mapM (t.readNamed fuel false)).map (t.pruneFields e) := by
  induction ms with
  | nil => rfl
  | cons m ms ih =>
    have ih := ih (fun m' hm' => hshown m' (List.mem_cons_of_mem m hm'))
      (fun m' hm' => hread m' (List.mem_cons_of_mem m hm')) fun m' hm' =>
        hskip m' (List.mem_cons_of_mem m hm')
    have hhead := hshown m List.mem_cons_self
    cases hs : shows m with
    | true =>
      rw [hs, if_pos rfl] at hhead
      rw [List.filter_cons_of_pos hs, List.mapM_cons, List.mapM_cons, ih, readNamed, readNamed,
        hread m List.mem_cons_self hs]
      cases t.snapshotFrom fuel false m.2 with
      | error err => rfl
      | ok v =>
        cases ms.mapM (t.readNamed fuel false) with
        | error err => rfl
        | ok vs =>
          show Except.ok ((m.1, t.prune m.2 v) :: t.pruneFields e vs) =
              Except.ok (t.pruneFields e ((m.1, v) :: vs))
          rw [pruneFields, hhead]
    | false =>
      rw [hs, if_neg (by simp)] at hhead
      obtain ⟨v, hv⟩ := hskip m List.mem_cons_self hs
      rw [List.filter_cons_of_neg (by simp [hs]), List.mapM_cons, ih, readNamed, hv]
      cases ms.mapM (t.readNamed fuel false) with
      | error err => rfl
      | ok vs =>
        show Except.ok (t.pruneFields e vs) = Except.ok (t.pruneFields e ((m.1, v) :: vs))
        rw [pruneFields, hhead]

/-- What holds no elements is not pruned. -/
theorem prune_of_not_branches (he : t.element? id = some e) (hb : e.content.branches = false)
    (v : Value) : t.prune id v = v := by
  cases v with
  | map fields =>
    rw [prune, he]
    simp only [hb, Bool.false_eq_true, ↓reduceIte]
  | _ => rfl

/-- Pruning goes on below containers and lists. -/
theorem prune_map (he : t.element? id = some e) (hb : e.content.branches = true)
    (fields : List (String × Value)) :
    t.prune id (.map fields) = .map (t.pruneFields e fields) := by
  rw [prune, he]
  simp only [hb, ↓reduceIte]

/-- A filtered reading is the full one, pruned. -/
theorem Tended.snapshotFrom_true (h : t.Tended) (hfuel : t.slots.size ≤ id.index + fuel) :
    t.snapshotFrom fuel true id = (t.snapshotFrom fuel false id).map (t.prune id) := by
  induction fuel generalizing id with
  | zero => rfl
  | succ fuel ih =>
    cases he : t.element? id with
    | none =>
      rw [snapshotFrom, snapshotFrom, element, he]
      rfl
    | some e =>
      have hbelow : ∀ m : String × ElementId, m.2 ∈ e.below →
          t.snapshotFrom fuel true m.2 = (t.snapshotFrom fuel false m.2).map (t.prune m.2) := by
        intro m hm
        have hlt := h.linked.index_lt he hm
        exact ih (by omega)
      have hpruned : ∀ r : Except Error (List (String × Value)), e.content.branches = true →
          (r.map (t.pruneFields e)).map Value.map = (r.map Value.map).map (t.prune id) := by
        intro r hb
        cases r with
        | error err => rfl
        | ok fields => exact congrArg Except.ok (prune_map he hb fields).symm
      cases hc : e.content with
      | container =>
        rw [snapshotFrom_container he hc, snapshotFrom_container he hc,
          h.linked.shownChildren_true he, shownChildren_false]
        show ((e.children.filter fun m => t.isMarked m.2).mapM
          (t.readNamed fuel true)).map Value.map
          = ((e.children.mapM (t.readNamed fuel false)).map Value.map).map (t.prune id)
        rw [← hpruned _ (by rw [hc]; rfl), mapM_filter (e := e) fun m => t.isMarked m.2]
        · intro m hm
          have hget : e.child? m.1 = some m.2 := Assoc.get?_eq_some_of_mem (h.linked.names he) hm
          rw [shown?, hc]
          simp only [hget, Option.filter_some]
        · exact fun m hm _ => hbelow m (Element.mem_below_of_child hm)
        · intro m hm hmark
          obtain ⟨-, ce, hce, -⟩ := h.linked.child he hm
          have hlt := h.linked.index_lt he (Element.mem_below_of_child hm)
          rw [isMarked_eq hce] at hmark
          exact h.exists_snapshotFrom hce hmark (by omega)
      | list l =>
        rw [snapshotFrom_list he hc, snapshotFrom_list he hc, ← hpruned _ (by rw [hc]; rfl),
          ← mapM_filter fun _ => true, List.filter_true]
        · intro m hm
          rw [shown?, hc, if_pos rfl]
          exact Assoc.get?_eq_some_of_mem (h.linked.keys he hc) hm
        · exact fun m hm _ => hbelow m (Element.mem_below_of_entry hc hm)
        · exact fun _ _ hno => by cases hno
      | _ =>
        have hb : e.content.branches = false := by rw [hc]; rfl
        rw [snapshotFrom_of_not_branches he hb, funext (prune_of_not_branches he hb)]
        cases t.snapshotFrom (fuel + 1) false id <;> rfl

/-! ## More fuel -/

theorem mapM_readNamed_succ (hread : ∀ {c v}, t.snapshotFrom fuel filtered c = .ok v →
      t.snapshotFrom (fuel + 1) filtered c = .ok v) {ms : List (String × ElementId)}
    {vs : List (String × Value)} (h : ms.mapM (t.readNamed fuel filtered) = .ok vs) :
    ms.mapM (t.readNamed (fuel + 1) filtered) = .ok vs := by
  rw [mapM_eq_ok] at h ⊢
  refine h.imp fun m p hm => ?_
  obtain ⟨v, hv, rfl⟩ := map_eq_ok.1 hm
  rw [readNamed, hread hv]
  rfl

/-- What can be read with some fuel reads the same with more. -/
theorem snapshotFrom_succ (h : t.snapshotFrom fuel filtered id = .ok v) :
    t.snapshotFrom (fuel + 1) filtered id = .ok v := by
  induction fuel generalizing filtered id v with
  | zero => cases h
  | succ fuel ih =>
    cases he : t.element? id with
    | none =>
      rw [snapshotFrom, element, he] at h
      cases h
    | some e =>
      cases hc : e.content with
      | container =>
        rw [snapshotFrom_container he hc, bind_eq_ok] at h ⊢
        obtain ⟨cs, hcs, h⟩ := h
        obtain ⟨vs, hvs, rfl⟩ := map_eq_ok.1 h
        exact ⟨cs, hcs, map_eq_ok.2 ⟨vs, mapM_readNamed_succ ih hvs, rfl⟩⟩
      | list l =>
        rw [snapshotFrom_list he hc] at h ⊢
        obtain ⟨vs, hvs, rfl⟩ := map_eq_ok.1 h
        exact map_eq_ok.2 ⟨vs, mapM_readNamed_succ ih hvs, rfl⟩
      | leaf slot =>
        rw [snapshotFrom, element_eq_ok_iff.2 he] at h ⊢
        simp only [bind, Except.bind, hc] at h ⊢
        split at h
        · split at h
          · exact ih h
          · exact h
          · cases h
        · exact h
        · exact h
      | leafList l =>
        rw [snapshotFrom, element_eq_ok_iff.2 he] at h ⊢
        simp only [bind, Except.bind, hc] at h ⊢
        exact h
      | custom c =>
        rw [snapshotFrom, element_eq_ok_iff.2 he] at h ⊢
        simp only [bind, Except.bind, hc] at h ⊢
        exact h

/-! ## Places -/

theorem mem_below_of_below? {name : String} (h : e.below? name = some c) : c ∈ e.below := by
  unfold Element.below? at h
  split at h
  · exact Element.mem_below_of_child (Assoc.mem_of_get?_eq_some h)
  · next l hl =>
    exact Element.mem_below_of_entry hl (Assoc.mem_of_get?_eq_some h)
  · cases h

/-- A place is found one name after the other. -/
theorem locate_cons_eq_some_iff {name : String} {path : List String} :
    t.locate id (name :: path) = some x ↔
      ∃ e c, t.element? id = some e ∧ e.below? name = some c ∧ t.locate c path = some x := by
  simp [locate, Option.bind_eq_some_iff]

/-- On the way down to a marked element everything is marked. -/
theorem Tended.isMarked_of_locate (h : t.Tended) {path : List String}
    (hloc : t.locate id path = some x) (hx : t.isMarked x = true) : t.isMarked id = true := by
  induction path generalizing id with
  | nil =>
    obtain rfl := Option.some.inj hloc
    exact hx
  | cons name path ih =>
    obtain ⟨e, c, he, hc, hloc⟩ := locate_cons_eq_some_iff.1 hloc
    obtain ⟨ce, hce, hpar⟩ := h.linked.of_mem_below he (mem_below_of_below? hc)
    have hmark := ih hloc
    rw [isMarked_eq hce] at hmark
    rw [isMarked_eq he]
    exact (h.tracked.above hce hmark hpar he).resolve_right (by simp)

/-- What was read under a name is found under that name. -/
theorem get?_of_mapM {ms : List (String × ElementId)} {vs : List (String × Value)} {name : String}
    (hn : (Assoc.keys ms).Nodup) (h : ms.mapM (t.readNamed fuel filtered) = .ok vs)
    (hm : (name, c) ∈ ms) :
    ∃ w, Assoc.get? name vs = some w ∧ t.snapshotFrom fuel filtered c = .ok w := by
  have hkeys : Assoc.keys vs = Assoc.keys ms := by
    have hf := mapM_eq_ok.1 h
    clear h hn hm
    induction hf with
    | nil => rfl
    | cons hab _ ih =>
      obtain ⟨_, -, rfl⟩ := map_eq_ok.1 hab
      exact congrArg _ ih
  obtain ⟨p, hp, hread⟩ := exists_mem_of_mapM h hm
  obtain ⟨w, hw, rfl⟩ := map_eq_ok.1 hread
  exact ⟨w, Assoc.get?_eq_some_of_mem (hkeys ▸ hn) hp, hw⟩

/-- Whatever is marked has its place in the filtered reading. -/
theorem Tended.at_of_snapshotFrom (h : t.Tended) {path : List String}
    (hread : t.snapshotFrom fuel true id = .ok v) (hloc : t.locate id path = some x)
    (hx : t.isMarked x = true) : ∃ w, v.at? path = some w ∧ t.snapshotFrom fuel true x = .ok w := by
  induction path generalizing fuel id v with
  | nil =>
    obtain rfl := Option.some.inj hloc
    exact ⟨v, rfl, hread⟩
  | cons name path ih =>
    obtain ⟨e, c, he, hc, hloc⟩ := locate_cons_eq_some_iff.1 hloc
    have hmark := h.isMarked_of_locate hloc hx
    cases fuel with
    | zero => cases hread
    | succ fuel =>
      -- It remains to find what was read under the name.
      suffices hfound : ∃ vs w, v = .map vs ∧ Assoc.get? name vs = some w ∧
          t.snapshotFrom fuel true c = .ok w by
        obtain ⟨vs, w, rfl, hget, hw⟩ := hfound
        obtain ⟨w', hat, hw'⟩ := ih hw hloc
        exact ⟨w', by rw [Value.at?, hget, Option.bind_some, hat], snapshotFrom_succ hw'⟩
      unfold Element.below? at hc
      split at hc
      · next hcont =>
        rw [snapshotFrom_container he hcont, h.linked.shownChildren_true he] at hread
        obtain ⟨vs, hvs, rfl⟩ := map_eq_ok.1 hread
        have hm : (name, c) ∈ e.children.filter fun m => t.isMarked m.2 :=
          List.mem_filter.2 ⟨Assoc.mem_of_get?_eq_some hc, hmark⟩
        have hn : (Assoc.keys (e.children.filter fun m => t.isMarked m.2)).Nodup :=
          (List.filter_sublist.map Prod.fst).nodup (h.linked.names he)
        obtain ⟨w, hget, hw⟩ := get?_of_mapM hn hvs hm
        exact ⟨vs, w, rfl, hget, hw⟩
      · next l hl =>
        rw [snapshotFrom_list he hl] at hread
        obtain ⟨vs, hvs, rfl⟩ := map_eq_ok.1 hread
        obtain ⟨w, hget, hw⟩ :=
          get?_of_mapM (h.linked.keys he hl) hvs (Assoc.mem_of_get?_eq_some hc)
        exact ⟨vs, w, rfl, hget, hw⟩
      · cases hc

/-- **Filtering**: the filtered snapshot is the full one without the children of containers that
are not marked. -/
theorem Tended.snapshot_true (h : t.Tended) (id : ElementId) :
    t.snapshot true id = (t.snapshot false id).map (t.prune id) :=
  h.snapshotFrom_true (by omega)

/-- A marked element without elements below it is read at its place in the filtered snapshot. -/
theorem Tended.value_of_locate (h : t.Tended) {path : List String}
    (hread : t.snapshot true id = .ok v) (hloc : t.locate id path = some x)
    (he : t.element? x = some e) (hc : e.changed = true) (hb : e.content.branches = false) :
    ∃ w, t.value x = .ok w ∧ v.at? path = some w := by
  obtain ⟨w, hat, hw⟩ := h.at_of_snapshotFrom hread hloc (by rw [isMarked_eq he, hc])
  refine ⟨w, ?_, hat⟩
  rw [snapshotFrom_of_not_branches he hb] at hw
  exact hw

end Tree

end DataTree
