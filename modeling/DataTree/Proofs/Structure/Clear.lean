import DataTree.Proofs.Structure.Removal

/-!
# DataTree.Proofs.Structure.Clear

What clearing a single element does to a tree whose structure is sound.

A leaf or a leaf-list loses its data; the entries of a list go with all that is under
them; and everything else stays as it was (`Sound.clear`).
-/

namespace DataTree

open Edit Outcome

/-! ## Contents -/

namespace Content

/-- A content that a schema can declare. -/
def IsDeclared : Content → Prop
  | .custom _ => False
  | _ => True

/-- Whether there is a value, an item or an entry. -/
def holdsData : Content → Bool
  | .leaf slot => slot.value.isSome
  | .leafList l => !l.isEmpty
  | .list l => !l.isEmpty
  | .container | .custom _ => false

@[simp] theorem holdsData_bare (c : Content) : c.bare.holdsData = false := by
  cases c <;> rfl

/-- Nothing is lost from a content without data. -/
theorem bare_eq_self {c : Content} (hc : c.IsDeclared) (h : c.holdsData = false) : c.bare = c := by
  cases c with
  | leaf slot =>
    obtain ⟨type, value⟩ := slot
    have hv : value = none := by simpa [holdsData] using h
    rw [hv]
    rfl
  | leafList l =>
    obtain ⟨type, items⟩ := l
    have hi : items = [] := by simpa [holdsData, LeafList.isEmpty] using h
    rw [hi]
    rfl
  | list l =>
    obtain ⟨schema, members⟩ := l
    have hm : members = [] := by simpa [holdsData, KeyedList.isEmpty] using h
    rw [hm]
    rfl
  | container => rfl
  | custom c => exact hc.elim

@[simp] theorem bare_bare (c : Content) : c.bare.bare = c.bare := by
  cases c <;> rfl

/-- What was declared can be seen without data. -/
theorem isDeclared_of_bare {c c' : Content} (h : c'.bare = c.bare) (hc : c.IsDeclared) :
    c'.IsDeclared := by
  cases c' with
  | custom c' =>
    cases c with
    | custom c => exact hc
    | _ => simp [bare] at h
  | _ => trivial

/-- A content without data has no links. -/
theorem links_eq_nil {c : Content} (h : c.holdsData = false) : c.links = [] := by
  cases c with
  | list l => simpa [holdsData, KeyedList.isEmpty, links] using h
  | _ => rfl

/-- A content without data has no items. -/
theorem members_eq_nil {c : Content} (h : c.holdsData = false) : c.members = [] := by
  cases c with
  | leafList l => simpa [holdsData, LeafList.isEmpty, members] using h
  | _ => rfl

/-- Clearing leaves the bare content. -/
theorem clear_eq {c : Content} (hd : c.IsDeclared) (hc : c ≠ .container) (hl : ∀ l, c ≠ .list l) :
    ∃ items, c.clear = .ok (items, c.bare) := by
  cases c with
  | leaf slot => exact ⟨_, rfl⟩
  | leafList l => exact ⟨_, rfl⟩
  | container => exact absurd rfl hc
  | list l => exact absurd rfl (hl l)
  | custom c => exact hd.elim

end Content

/-- An element without its data. -/
def Element.emptied (e : Element) : Element := { e with content := e.content.bare }

@[simp] theorem Element.emptied_emptied (e : Element) : e.emptied.emptied = e.emptied := by
  simp [Element.emptied]

/-- There is nothing to empty in an element without data. -/
theorem Element.emptied_eq_self {e : Element} (hd : e.content.IsDeclared)
    (h : e.content.holdsData = false) : e.emptied = e := by
  rw [Element.emptied, Content.bare_eq_self hd h]

namespace Tree

variable {t t' : Tree} {pending : Set ElementId} {id c x : ElementId} {e : Element}

/-! ## What shrinking does to the ways down -/

/-- Links that are still there were there. -/
theorem Shrinks.above (h : t.Shrinks t') (ha : t'.Above id c) : t.Above id c := by
  obtain ⟨e', he', hc⟩ := ha
  obtain ⟨e, he, hs⟩ := h.element he'
  refine ⟨e, he, ?_⟩
  rw [Element.below_eq] at hc ⊢
  obtain hc | hc := List.mem_append.1 hc
  · exact List.mem_append_left _ (List.map_subset Prod.snd hs.children.subset hc)
  · exact List.mem_append_right _ (List.map_subset Prod.snd hs.links.subset hc)

/-- What is still under an element was under it. -/
theorem Shrinks.under (h : t.Shrinks t') (hu : t'.Under id x) : t.Under id x :=
  Relation.ReflTransGen.mono (fun p c (ha : t'.Above p c) => h.above ha) _ _ hu

/-- What stays in a sound tree stays under what it was under. -/
theorem Sound.under_of_shrinks {pending' : Set ElementId} (h : Sound t pending)
    (h' : Sound t' pending') (hs : t.Shrinks t') (hp : pending' ⊆ pending)
    (hu : t.Under id x) {xe : Element} (hx : t'.element? x = some xe) : t'.Under id x := by
  induction hu generalizing xe with
  | refl => exact .refl
  | @tail p x hup ha ih =>
    obtain ⟨hnot, -, e, he, hpar⟩ := h.of_above ha
    obtain ⟨e₁, he₁, hse⟩ := hs.element hx
    obtain rfl : e = e₁ := Option.some.inj (he.symm.trans he₁)
    have hpar' : xe.parent = some p := by rw [Element.parent_of_bare hse.bare, hpar]
    have habove := h'.listed hx hpar' fun hm => hnot (hp hm)
    have ⟨pe, hpe, _⟩ := habove
    exact (ih hpe).tail habove

/-- Two elements that something is under are one under the other. -/
theorem Sound.under_or_under (h : Sound t pending) (hi : t.Under id x) (hc : t.Under c x) :
    t.Under id c ∨ t.Under c id := by
  induction hi with
  | refl => exact .inr hc
  | @tail p x hp ha ih =>
    by_cases hxc : x = c
    · exact .inl (hxc ▸ hp.tail ha)
    · obtain ⟨e, q, he, hq, hqu, -⟩ := h.parent_of_under hc hxc
      obtain ⟨-, -, e', he', hpar⟩ := h.of_above ha
      obtain rfl : e = e' := Option.some.inj (he.symm.trans he')
      obtain rfl : q = p := Option.some.inj (hq.symm.trans hpar)
      exact ih hqu

/-- Nothing is under an element with nothing below it. -/
theorem eq_of_under_of_below (he : t.element? id = some e) (hb : e.below = []) (hu : t.Under id x) :
    x = id := by
  obtain rfl | ⟨c, ⟨e', he', hc⟩, -⟩ := Relation.ReflTransGen.cases_head_iff.1 hu
  · rfl
  · obtain rfl : e = e' := Option.some.inj (he.symm.trans he')
    rw [hb] at hc
    cases hc

/-- Removing entries that their list has let go removes what is under them and nothing
else. -/
theorem Sound.removeReleased {entries : List ElementId}
    (h : Sound t (pending ∪ { c | c ∈ entries })) (hn : entries.Nodup)
    (hp : ∀ c ∈ entries, c ∉ pending) :
    (entries.forM Tree.removeSubtree).Ensures t
      (fun _ t' => t.Shrinks t' ∧ (∀ c ∈ entries, t'.element? c = none) ∧
        ∀ x, (∀ c ∈ entries, ¬ t.Under c x) → t'.element? x = t.element? x)
      fun _ _ => False := by
  refine (ensures_forM
    (I := fun cs t' => Sound t' (pending ∪ { c | c ∈ cs }) ∧ cs.Nodup ∧ (∀ c ∈ cs, c ∈ entries) ∧
      t.Shrinks t' ∧ (∀ c ∈ entries, c ∉ cs → t'.element? c = none) ∧
      ∀ x, (∀ c ∈ entries, ¬ t.Under c x) → t'.element? x = t.element? x)
    ?_ ⟨h, hn, fun c hc => hc, refl_of Shrinks t,
      fun c hc hno => absurd hc hno, fun _ _ => rfl⟩).mono
    (fun _ t' hd => ⟨hd.2.2.2.1, fun c hc => hd.2.2.2.2.1 c hc (by simp), hd.2.2.2.2.2⟩)
    fun _ _ hf => hf
  intro c cs t' hinv
  obtain ⟨h', hn', hsub, hs, hgone, hstays⟩ := hinv
  rw [List.nodup_cons] at hn'
  have hc := hsub c List.mem_cons_self
  obtain ⟨ce', t'', hce', ht'', hr, hs', h''⟩ := h'.removeEntry hn'.1 (hp c hc)
  rw [ensures_of_ok ht'']
  refine ⟨h'', hn'.2, fun d hd => hsub d (List.mem_cons_of_mem c hd), trans_of Shrinks hs hs',
    fun d hd hno => ?_, fun x hx => ?_⟩
  · by_cases hdc : d = c
    · subst hdc
      exact hr.gone .refl
    · exact hs'.element?_eq_none (hgone d hd (by simp [hdc, hno]))
  · have hx' : ¬ t'.Under c x := fun hu => hx c hc (hs.under hu)
    rw [hr.stays hx', h'.element?_detach_of_pending (.inr List.mem_cons_self) hce', hstays x hx]

/-! ## Clearing one element -/

/-- What clearing an element leaves: the element without its data, nothing below it, and
everything else as it was. -/
structure Clears (id : ElementId) (e : Element) (t t' : Tree) : Prop where
  self : t'.element? id = some e.emptied
  gone : ∀ {x}, t.Under id x → x ≠ id → t'.element? x = none
  stays : ∀ {x}, ¬ t.Under id x → t'.element? x = t.element? x
  registry : e.content.holdsData = false → t'.registry = t.registry

/-- The entries of a list are below it. -/
theorem Sound.of_mem_entries (h : Sound t pending) (he : t.element? id = some e) {l : KeyedList}
    (hl : e.content = .list l) (hc : c ∈ l.entries) :
    t.Above id c ∧ c ∉ pending ∧ id.index < c.index := by
  have ha : t.Above id c := ⟨e, he, List.mem_append_right _ (by rw [hl]; exact hc)⟩
  obtain ⟨hp, hlt, -⟩ := h.of_above ha
  exact ⟨ha, hp, hlt⟩

/-- When the entries of a list are gone, so is all that was under them. -/
theorem Sound.eq_none_of_entries (h : Sound t pending) (h' : Sound t' pending) (hs : t.Shrinks t')
    (he : t.element? id = some e) {l : KeyedList} (hl : e.content = .list l)
    (hgone : ∀ c ∈ l.entries, t'.element? c = none) (hu : t.Under id x) (hne : x ≠ id) :
    t'.element? x = none := by
  cases hx : t'.element? x with
  | none => rfl
  | some xe =>
    obtain ⟨c, ⟨e', he', hc⟩, hcu⟩ :=
      (Relation.ReflTransGen.cases_head_iff.1 hu).resolve_left (Ne.symm hne)
    obtain rfl : e = e' := Option.some.inj (he.symm.trans he')
    rw [h.below_of_list he hl] at hc
    have hcu' := h.under_of_shrinks h' hs (fun _ hy => hy) hcu hx
    obtain rfl | ⟨c', ⟨ce, hce, -⟩, -⟩ := Relation.ReflTransGen.cases_head_iff.1 hcu'
    · rw [hgone _ hc] at hx
      cases hx
    · rw [hgone _ hc] at hce
      cases hce

/-- Clearing a list: it lets its entries go, and they are removed. -/
theorem Sound.clearEntries (h : Sound t pending) (he : t.element? id = some e) {l : KeyedList}
    (hl : e.content = .list l) :
    (l.entries.forM Tree.removeSubtree).Ensures
      (t.modifyElement id fun e => { e with content := .list { l with members := [] } })
      (fun _ => Clears id e t) fun _ _ => False := by
  let f : Element → Element := fun e => { e with content := .list { l with members := [] } }
  have hf : f e = e.emptied := by simp [f, Element.emptied, hl, Content.bare]
  have hun := h.unlink he hl List.nil_subperm (f := f) rfl
  simp only [List.map_nil, List.not_mem_nil, not_false_eq_true, and_true] at hun
  have hpend : ∀ c ∈ l.entries, c ∉ pending := fun c hc => (h.of_mem_entries he hl hc).2.1
  have hs : t.Shrinks (t.modifyElement id f) := shrinks_unlink he hl List.nil_subperm rfl
  have hreg : (l.entries.forM Tree.removeSubtree).Ensures (t.modifyElement id f)
      (fun _ t' => e.content.holdsData = false → t'.registry = t.registry) fun _ _ => True := by
    cases hm : l.members with
    | nil =>
      rw [KeyedList.entries, hm]
      exact fun _ => rfl
    | cons m ms =>
      refine (ensures_true _ _).mono (fun _ t' _ hdata => ?_) fun _ _ _ => trivial
      simp [hl, Content.holdsData, KeyedList.isEmpty, hm] at hdata
  refine (((hun.removeReleased (h.entries he hl) hpend).and
    (hun.removeEntries (h.entries he hl) hpend)).and
    hreg).mono (fun _ t' hd => ?_) fun _ _ hf => hf.1.1
  obtain ⟨⟨⟨hs', hgone, hstays⟩, h'⟩, hreg⟩ := hd
  have hstays' : ∀ {x}, x = id ∨ ¬ t.Under id x →
      t'.element? x = (t.modifyElement id f).element? x := by
    intro x hx
    refine hstays x fun c hc hu => ?_
    obtain ⟨ha, -, hlt⟩ := h.of_mem_entries he hl hc
    obtain rfl | hx := hx
    · exact absurd (h.index_le_of_under (hs.under hu)) (Nat.not_le.2 hlt)
    · exact hx (Relation.ReflTransGen.head ha (hs.under hu))
  constructor
  case self => rw [hstays' (.inl rfl), element?_modifyElement_self he, hf]
  case gone => exact fun hu hne =>
    h.eq_none_of_entries h' (trans_of Shrinks hs hs') he hl hgone hu hne
  case stays =>
    intro x hx
    have hne : x ≠ id := fun hxi => hx (hxi ▸ .refl)
    rw [hstays' (.inr hx), element?_modifyElement_of_ne hne]
  case registry => exact hreg

/-- Clearing anything else: the data goes, and the registrations of items with it. -/
theorem clears_unregister (he : t.element? id = some e) (hbelow : e.below = []) :
    Clears id e t (e.content.members.foldl (fun t item => t.unregisterMember e item)
      (t.modifyElement id fun e' => { e' with content := e.content.bare })) := by
  obtain ⟨hslots, -, -⟩ := foldl_unregisterMember e e.content.members
    (t.modifyElement id fun e' => { e' with content := e.content.bare })
  constructor
  case self =>
    rw [element?_congr hslots, element?_modifyElement_self he]
    rfl
  case gone => exact fun hu hne => absurd (eq_of_under_of_below he hbelow hu) hne
  case stays =>
    intro x hx
    have hne : x ≠ id := fun hxi => hx (hxi ▸ .refl)
    rw [element?_congr hslots, element?_modifyElement_of_ne hne]
  case registry =>
    intro hdata
    rw [Content.members_eq_nil hdata]
    rfl

/-- Clearing succeeds where a schema has been before. -/
theorem Sound.clear (h : Sound t pending) (he : t.element? id = some e)
    (hd : e.content.IsDeclared) (hc : e.content ≠ .container) :
    (clear id).Ensures t (fun _ => Clears id e t) fun _ _ => False := by
  rw [Tree.clear, ensures_get_bind_of he]
  split
  · next l hl =>
    rw [ensures_bind, ensures_update_of he]
    exact h.clearEntries he hl
  · next hl =>
    have hbelow : e.below = [] := by
      rw [Element.below, h.children_eq_nil he hc]
      cases hcont : e.content with
      | list l => exact absurd hcont (hl l)
      | _ => rfl
    obtain ⟨items, hclear⟩ := Content.clear_eq hd hc hl
    rw [ensures_ofExcept_bind_of hclear, ensures_bind, ensures_update_of he]
    rw [ensures_changing]
    exact clears_unregister he hbelow

end Tree

end DataTree
