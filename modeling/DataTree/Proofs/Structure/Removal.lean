import DataTree.Proofs.Assignment
import DataTree.Proofs.Structure.Basic
import DataTree.Proofs.Tables

/-!
# DataTree.Proofs.Structure.Removal

Taking apart a tree whose structure is sound.

Going down from an element ends and lists what is under it (`subtree_spec`), so
removing an element always succeeds, and leaves a sound structure behind
(`Sound.removes`).  Entries are first taken out of their list, which makes them
pending (`Sound.unlink`), and then removed.
-/

namespace DataTree.Tree

open Edit Outcome

variable {t t' : Tree} {pending : Set ElementId} {id : ElementId} {e : Element}

/-! ## Going down -/

/-- Whatever going down lists is under the element, and nothing under it is left out. -/
theorem mem_subtreeFrom_iff {fuel : Nat} {doomed : List ElementId}
    (h : t.subtreeFrom fuel id = .ok doomed) {x : ElementId} : x ∈ doomed ↔ t.Under id x := by
  induction fuel generalizing id doomed with
  | zero => cases h
  | succ fuel ih =>
    rw [subtreeFrom, bind_eq_ok] at h
    obtain ⟨e, he, h⟩ := h
    rw [element_eq_ok_iff] at he
    obtain ⟨below, hbelow, h⟩ := bind_eq_ok.1 h
    obtain rfl := pure_eq_ok.1 h
    rw [List.mem_append, List.mem_flatten, List.mem_singleton, Under,
      Relation.ReflTransGen.cases_head_iff]
    constructor
    · intro hx
      obtain ⟨ds, hds, hx⟩ | rfl := hx
      · obtain ⟨c, hc, hsub⟩ := mem_of_mapM hbelow hds
        exact .inr ⟨c, ⟨e, he, hc⟩, (ih hsub).1 hx⟩
      · exact .inl rfl
    · intro hx
      obtain rfl | ⟨c, ⟨e', he', hc⟩, hx⟩ := hx
      · exact .inr rfl
      · obtain rfl : e = e' := Option.some.inj (he.symm.trans he')
        obtain ⟨ds, hds, hsub⟩ := exists_mem_of_mapM hbelow hc
        exact .inl ⟨ds, hds, (ih hsub).2 hx⟩

/-- Going down ends where everything that is listed is there, in a later slot. -/
theorem exists_subtreeFrom {fuel : Nat} (he : (t.element? id).isSome)
    (hdown : ∀ {p c}, t.Under id p → t.Above p c → p.index < c.index ∧ (t.element? c).isSome)
    (hfuel : t.slots.size ≤ id.index + fuel) : ∃ doomed, t.subtreeFrom fuel id = .ok doomed := by
  induction fuel generalizing id with
  | zero =>
    obtain ⟨e, he⟩ := Option.isSome_iff_exists.1 he
    have hlt := index_lt_of_element? he
    omega
  | succ fuel ih =>
    obtain ⟨e, he⟩ := Option.isSome_iff_exists.1 he
    have hok : ∀ c ∈ e.below, ∃ doomed, t.subtreeFrom fuel c = .ok doomed := by
      intro c hc
      have hac : t.Above id c := ⟨e, he, hc⟩
      obtain ⟨hlt, hsome⟩ := hdown .refl hac
      exact ih hsome (fun hu ha => hdown (.head hac hu) ha) (by omega)
    obtain ⟨below, hb⟩ := exists_mapM_eq_ok hok
    exact ⟨below.flatten ++ [id], by
      rw [subtreeFrom, bind_eq_ok]
      exact ⟨e, element_eq_ok_iff.2 he, bind_eq_ok.2 ⟨below, hb, rfl⟩⟩⟩

/-- Going down from an element ends, and reaches what is under it. -/
theorem subtreeFrom_spec (h : Sound t pending) {fuel : Nat} (he : t.element? id = some e)
    (hfuel : t.slots.size ≤ id.index + fuel) :
    ∃ doomed, t.subtreeFrom fuel id = .ok doomed ∧ ∀ x, x ∈ doomed ↔ t.Under id x := by
  have hdown : ∀ {p c}, t.Under id p → t.Above p c → p.index < c.index ∧ (t.element? c).isSome := by
    intro p c _ ha
    obtain ⟨-, hlt, ce, hce, -⟩ := h.of_above ha
    exact ⟨hlt, by rw [hce]; rfl⟩
  obtain ⟨doomed, hd⟩ := exists_subtreeFrom (by rw [he]; rfl) hdown hfuel
  exact ⟨doomed, hd, fun x => mem_subtreeFrom_iff hd⟩

theorem subtree_spec (h : Sound t pending) (he : t.element? id = some e) :
    ∃ doomed, t.subtree id = .ok doomed ∧ ∀ x, x ∈ doomed ↔ t.Under id x :=
  subtreeFrom_spec h he (by omega)

/-! ## Detaching -/

/-- What contains children contains no entries. -/
theorem Sound.children_eq_nil (h : Sound t pending) (he : t.element? id = some e)
    (hc : e.content ≠ .container) : e.children = [] := by
  cases hch : e.children with
  | nil => rfl
  | cons m ms => exact absurd (h.child he (hch ▸ List.mem_cons_self)).1 hc

/-- Detaching what is not below an element changes nothing. -/
theorem detach_eq_self (h : id ∉ e.below) (name : String) : e.detach name id = e := by
  rw [Element.below, List.mem_append, not_or] at h
  unfold Element.detach
  split
  · split
    · next hchild => exact absurd (List.mem_map_of_mem (Assoc.mem_of_get?_eq_some hchild)) h.1
    · rfl
  · next l hl =>
    have hforget : l.forget id = l := by
      rw [KeyedList.forget, List.filter_eq_self.2 fun m hm => ?_]
      have hne : m.2 ≠ id := by
        intro hmi
        rw [hl] at h
        exact h.2 (hmi ▸ List.mem_map_of_mem hm)
      exact decide_eq_true hne
    rw [hforget, ← hl]
  · rfl

/-- Nothing lists what is pending, so detaching it changes nothing. -/
theorem Sound.element?_detach_of_pending (h : Sound t pending) (hid : id ∈ pending)
    (he : t.element? id = some e) (x : ElementId) : (t.detach e).element? x = t.element? x := by
  rw [element?_detach, h.id_eq he]
  split
  · cases hx : t.element? x with
    | none => rfl
    | some pe =>
      have hnot : id ∉ pe.below := fun hm => (h.of_mem_below hx hm).1 hid
      rw [Option.map_some, detach_eq_self hnot]
  · rfl

/-- A detached element is not listed any more, and everything else still is. -/
theorem Sound.mem_below_detach (h : Sound t pending) {p x : ElementId} {pe : Element}
    (hp : t.element? p = some pe) (he : t.element? id = some e) :
    x ∈ (pe.detach e.name id).below ↔ x ∈ pe.below ∧ x ≠ id := by
  have hname : ∀ {n c}, (n, c) ∈ pe.children → c = id → n = e.name := by
    intro n c hm hc
    subst hc
    obtain ⟨-, -, ce, hce, -, hn, -⟩ := h.child hp hm
    obtain rfl : e = ce := Option.some.inj (he.symm.trans hce)
    exact hn.symm
  unfold Element.detach
  cases hc : pe.content with
  | container =>
    have hentries : pe.content.entries = [] := by rw [hc]; rfl
    have hnone : Content.container.entries = [] := rfl
    simp only [Element.below, hentries, List.append_nil]
    by_cases hchild : pe.child? e.name = some id
    · rw [if_pos hchild]
      simp only [hnone, List.append_nil, List.mem_map, Prod.exists, exists_eq_right,
        Assoc.mem_erase_iff]
      constructor
      · intro hx
        obtain ⟨n, hm, hne⟩ := hx
        exact ⟨⟨n, hm⟩, fun hxi => hne (hname hm hxi)⟩
      · intro hx
        obtain ⟨⟨n, hm⟩, hne⟩ := hx
        refine ⟨n, hm, fun hn => hne ?_⟩
        subst hn
        exact Assoc.eq_of_mem_of_mem (h.names hp) hm (Assoc.mem_of_get?_eq_some hchild)
    · rw [if_neg hchild]
      simp only [hentries, List.append_nil, List.mem_map, Prod.exists, exists_eq_right]
      constructor
      · intro hx
        obtain ⟨n, hm⟩ := hx
        refine ⟨⟨n, hm⟩, fun hxi => hchild ?_⟩
        subst hxi
        obtain rfl := hname hm rfl
        exact Assoc.get?_eq_some_of_mem (h.names hp) hm
      · intro hx
        exact hx.1
  | list l =>
    have hchildren := h.children_eq_nil hp (by simp [hc])
    simp [Element.below, Content.entries, KeyedList.forget, KeyedList.entries, hchildren, hc]
  | _ =>
    have hchildren := h.children_eq_nil hp (by simp [hc])
    simp [Element.below, Content.entries, hchildren, hc]

/-- Who is above whom once an element is detached. -/
theorem Sound.above_detach (h : Sound t pending) (he : t.element? id = some e) {p x : ElementId} :
    (t.detach e).Above p x ↔ t.Above p x ∧ x ≠ id := by
  have hid := h.id_eq he
  have hparent : t.Above p id → e.parent = some p := by
    intro ha
    obtain ⟨-, -, e', he', hpar⟩ := h.of_above ha
    obtain rfl : e = e' := Option.some.inj (he.symm.trans he')
    exact hpar
  unfold Above
  rw [element?_detach, hid]
  by_cases hpar : e.parent = some p
  · rw [if_pos hpar]
    constructor
    · intro ha
      obtain ⟨pe', hpe', hx⟩ := ha
      obtain ⟨pe, hpe, rfl⟩ := Option.map_eq_some_iff.1 hpe'
      obtain ⟨hx, hne⟩ := (h.mem_below_detach hpe he).1 hx
      exact ⟨⟨pe, hpe, hx⟩, hne⟩
    · intro ha
      obtain ⟨⟨pe, hpe, hx⟩, hne⟩ := ha
      exact ⟨_, by rw [hpe, Option.map_some], (h.mem_below_detach hpe he).2 ⟨hx, hne⟩⟩
  · rw [if_neg hpar]
    constructor
    · intro ha
      refine ⟨ha, fun hx => hpar (hparent ?_)⟩
      subst hx
      exact ha
    · intro ha
      exact ha.1

/-! ## Removing -/

/-- What removing an element leaves: everything under it is gone, and what stays
is as it was, but for the link to the element. -/
structure Removes (id : ElementId) (e : Element) (t t' : Tree) : Prop where
  gone : ∀ {x}, t.Under id x → t'.element? x = none
  stays : ∀ {x}, ¬ t.Under id x → t'.element? x = (t.detach e).element? x
  live : t'.live = t'.ids.length

open Classical in
/-- Removing an element of a sound tree succeeds. -/
theorem Sound.removeSubtree (h : Sound t pending) (he : t.element? id = some e) :
    ∃ t', (removeSubtree id).on t = (.ok (), t') ∧ Removes id e t t' := by
  obtain ⟨doomed, hd, hiff⟩ := subtree_spec h he
  obtain ⟨hel, -, -, hlive⟩ := foldl_drop doomed (t.detach e)
  refine ⟨doomed.foldl drop (t.detach e), ?_, fun {x} hx => ?_, fun {x} hx => ?_, hlive ?_⟩
  · rw [Tree.removeSubtree, on_bind, on_reading, hd]
    simp only
    rw [on_bind, on_get, element_eq_ok_iff.2 he]
    rfl
  · rw [hel x, if_pos ((hiff x).2 hx)]
  · rw [hel x, if_neg fun hm => hx ((hiff x).1 hm)]
  · have hids : (t.detach e).ids.length = t.ids.length := length_ids_congr fun x => by
      rw [element?_detach]
      split <;> simp
    rw [live_detach, h.live, hids]

/-- Removing an element leaves a sound tree.  If the element was pending it no
longer is. -/
theorem Sound.removes (h : Sound t pending) (he : t.element? id = some e) (hs : t.Shrinks t')
    (hr : Removes id e t t') : Sound t' (pending \ {id}) := by
  have habove : ∀ {p x}, t'.Above p x ↔ t.Above p x ∧ x ≠ id ∧ ¬ t.Under id p := by
    intro p x
    by_cases hp : t.Under id p
    · simp [Above, hr.gone hp, hp]
    · rw [← and_assoc, ← h.above_detach he, Above, hr.stays hp]
      simp [Above, hp]
  have hstays : ∀ {x xe p}, t.element? x = some xe → xe.parent = some p → x ≠ id →
      (x ∉ pending → ¬ t.Under id p) → ∃ xe', t'.element? x = some xe' ∧ xe'.parent = some p := by
    intro x xe p hx hpar hne hp
    have hxu : ¬ t.Under id x := by
      intro hu
      obtain ⟨xe₂, p₂, hx₂, hpar₂, hp₂, ha⟩ := h.parent_of_under hu hne
      obtain rfl : xe = xe₂ := Option.some.inj (hx.symm.trans hx₂)
      obtain rfl : p = p₂ := Option.some.inj (hpar.symm.trans hpar₂)
      exact hp (h.of_above ha).1 hp₂
    rw [hr.stays hxu, element?_detach]
    split
    · refine ⟨_, by rw [hx, Option.map_some], ?_⟩
      rw [Element.parent_of_bare (xe.shrinks_detach e.name e.id).bare, hpar]
    · exact ⟨xe, hx, hpar⟩
  refine h.shrinks hs hr.live ?_ ?_ ?_
  · intro p c ha
    obtain ⟨ha, hne, hp⟩ := habove.1 ha
    obtain ⟨hc, -, ce, hce, hpar⟩ := h.of_above ha
    obtain ⟨ce', hce', -⟩ := hstays hce hpar hne fun _ => hp
    exact ⟨fun hm => hc hm.1, ce', hce'⟩
  · intro x xe' p hx hpar hpend
    have hxu : ¬ t.Under id x := fun hu => by
      rw [hr.gone hu] at hx
      cases hx
    have hne : x ≠ id := fun hxi => hxu (hxi ▸ .refl)
    refine ⟨fun hm => hpend ⟨hm, hne⟩, fun ha => habove.2 ⟨ha, hne, fun hp => hxu (hp.tail ha)⟩⟩
  · intro x hx
    obtain ⟨xe, p, hxe, hpar⟩ := h.pending hx.1
    obtain ⟨xe', hxe', hpar'⟩ := hstays hxe hpar hx.2 fun hm => absurd hx.1 hm
    exact ⟨xe', p, hxe', hpar'⟩

/-- There is nothing to remove where there is no element. -/
theorem on_removeSubtree_of_none (h : t.element? id = none) :
    (Tree.removeSubtree id).on t = (.error (.elementNotFound id), t) := by
  have hsub : t.subtree id = .error (.elementNotFound id) := by
    rw [subtree]
    cases t.slots.size with
    | zero => rfl
    | succ fuel =>
      rw [subtreeFrom, bind_eq_error]
      exact .inl (element_eq_error_iff.2 ⟨h, rfl⟩)
  rw [Tree.removeSubtree, on_bind, on_reading, hsub]

/-- Removing keeps the structure; it fails only where there is nothing to remove. -/
theorem Sound.ensures_removeSubtree (h : Sound t pending) (id : ElementId) :
    (Tree.removeSubtree id).Ensures t (fun _ t' => Sound t' (pending \ {id}))
      fun _ t' => t' = t ∧ t.element? id = none := by
  cases he : t.element? id with
  | none =>
    rw [ensures_of_error (on_removeSubtree_of_none he)]
    exact ⟨rfl, rfl⟩
  | some e =>
    obtain ⟨t', ht', hr⟩ := h.removeSubtree he
    have hs := shrinks_removeSubtree id t
    rw [ht'] at hs
    rw [ensures_of_ok ht']
    exact h.removes he hs hr

/-- Removing what is pending succeeds, and leaves what is not under it as it was. -/
theorem Sound.removePending (h : Sound t pending) (hid : id ∈ pending) :
    (Tree.removeSubtree id).Ensures t
      (fun _ t' => Sound t' (pending \ {id}) ∧ (∀ x, t.Under id x → t'.element? x = none) ∧
        ∀ x, ¬ t.Under id x → t'.element? x = t.element? x)
      fun _ _ => False := by
  obtain ⟨e, p, he, -⟩ := h.pending hid
  obtain ⟨t', ht', hr⟩ := h.removeSubtree he
  have hs := shrinks_removeSubtree id t
  rw [ht'] at hs
  rw [ensures_of_ok ht']
  refine ⟨h.removes he hs hr, fun x hx => hr.gone hx, fun x hx => ?_⟩
  rw [hr.stays hx, h.element?_detach_of_pending hid he]

/-! ## Emptying lists -/

section

variable {l : KeyedList} {members : List (String × ElementId)} {f : Element → Element}

/-- Below a list there are its entries. -/
theorem Sound.below_of_list (h : Sound t pending) (he : t.element? id = some e)
    (hl : e.content = .list l) : e.below = l.entries := by
  rw [Element.below, h.children_eq_nil he (by simp [hl]), hl]
  rfl

/-- The list has lost the links to what was taken out. -/
theorem Sound.above_unlink_iff {p c : ElementId} (h : Sound t pending) (he : t.element? id = some e)
    (hl : e.content = .list l) (hsub : members.Subperm l.members)
    (hf : f e = { e with content := .list { l with members } }) :
    (t.modifyElement id f).Above p c ↔ t.Above p c ∧ (p = id → c ∈ members.map Prod.snd) := by
  by_cases hp : p = id
  · subst hp
    have hbelow : (f e).below = members.map Prod.snd := by
      rw [hf, Element.below, h.children_eq_nil he (by simp [hl])]
      rfl
    have hsubset : members.map Prod.snd ⊆ l.entries := List.map_subset Prod.snd hsub.subset
    simp only [Above, element?_modifyElement_self he, he, Option.some.injEq,
      exists_eq_left', hbelow, h.below_of_list he hl, forall_true_left]
    exact ⟨fun hc => ⟨hsubset hc, hc⟩, fun hc => hc.2⟩
  · simp [Above, element?_modifyElement_of_ne hp, hp]

/-- Entries that are taken out of their list are pending. -/
theorem Sound.unlink (h : Sound t pending) (he : t.element? id = some e) (hl : e.content = .list l)
    (hsub : members.Subperm l.members) (hf : f e = { e with content := .list { l with members } }) :
    Sound (t.modifyElement id f)
      (pending ∪ { c | c ∈ l.entries ∧ c ∉ members.map Prod.snd }) := by
  have habove : ∀ {p c}, (t.modifyElement id f).Above p c ↔
      t.Above p c ∧ (p = id → c ∈ members.map Prod.snd) := h.above_unlink_iff he hl hsub hf
  have hlist : ∀ {c}, t.Above id c ↔ c ∈ l.entries := by
    intro c
    simp [Above, he, h.below_of_list he hl]
  have hthere : ∀ {x xe p}, t.element? x = some xe → xe.parent = some p →
      ∃ xe', (t.modifyElement id f).element? x = some xe' ∧ xe'.parent = some p := by
    intro x xe p hx hp
    have hbare : ((t.modifyElement id f).element? x).map Element.parent =
        (t.element? x).map Element.parent :=
      map_element?_modifyElement fun _ e' he' => by
        obtain rfl : e = e' := Option.some.inj (he.symm.trans he')
        rw [hf]
    obtain ⟨xe', hxe', hpar⟩ := exists_of_map_eq hbare hx
    exact ⟨xe', hxe', hpar.trans hp⟩
  refine h.shrinks (shrinks_unlink he hl hsub hf) ?_ ?_ ?_ ?_
  · rw [live_modifyElement, h.live]
    exact (length_ids_congr fun x => isSome_element?_modifyElement t id f x).symm
  · intro p c ha
    obtain ⟨ha, hp⟩ := habove.1 ha
    obtain ⟨hc, -, ce, hce, hpar⟩ := h.of_above ha
    obtain ⟨ce', hce', -⟩ := hthere hce hpar
    refine ⟨fun hm => ?_, ce', hce'⟩
    obtain hm | ⟨hm, hno⟩ := hm
    · exact hc hm
    · obtain ⟨-, -, ce₂, hce₂, hpar₂⟩ := h.of_above (hlist.2 hm)
      obtain rfl : ce = ce₂ := Option.some.inj (hce.symm.trans hce₂)
      exact hno (hp (Option.some.inj (hpar.symm.trans hpar₂)))
  · intro x xe' p hx hpar hpend
    refine ⟨fun hm => hpend (.inl hm), fun ha => habove.2 ⟨ha, fun hp => ?_⟩⟩
    subst hp
    by_contra hno
    exact hpend (.inr ⟨hlist.1 ha, hno⟩)
  · intro x hm
    obtain hm | hm := hm
    · obtain ⟨xe, p, hxe, hpar⟩ := h.pending hm
      obtain ⟨xe', hxe', hpar'⟩ := hthere hxe hpar
      exact ⟨xe', p, hxe', hpar'⟩
    · obtain ⟨-, -, ce, hce, hpar⟩ := h.of_above (hlist.2 hm.1)
      obtain ⟨ce', hce', hpar'⟩ := hthere hce hpar
      exact ⟨ce', id, hce', hpar'⟩

end

/-- Removing the first of several pending entries leaves the others pending. -/
theorem Sound.removeEntry {c : ElementId} {cs : List ElementId}
    (h : Sound t (pending ∪ { x | x ∈ c :: cs })) (hc : c ∉ cs) (hp : c ∉ pending) :
    ∃ ce t', t.element? c = some ce ∧ (Tree.removeSubtree c).on t = (.ok (), t') ∧
      Removes c ce t t' ∧ t.Shrinks t' ∧ Sound t' (pending ∪ { x | x ∈ cs }) := by
  have hm : c ∈ pending ∪ { x | x ∈ c :: cs } := .inr List.mem_cons_self
  obtain ⟨ce, -, hce, -⟩ := h.pending hm
  obtain ⟨t', ht', hr⟩ := h.removeSubtree hce
  have hs := shrinks_removeSubtree c t
  rw [ht'] at hs
  have hrest : (pending ∪ { x | x ∈ c :: cs }) \ {c} = pending ∪ { x | x ∈ cs } := by
    ext x
    simp only [Set.mem_sdiff, Set.mem_union, Set.mem_ofPred_eq, List.mem_cons,
      Set.mem_singleton_iff]
    constructor
    · intro hx
      exact hx.1.imp_right fun hm => hm.resolve_left hx.2
    · intro hx
      refine ⟨hx.imp_right .inr, fun hxc => ?_⟩
      subst hxc
      exact hx.elim hp hc
  exact ⟨ce, t', hce, ht', hr, hs, hrest ▸ h.removes hce hs hr⟩

/-- Pending entries can all be removed. -/
theorem Sound.removeEntries {entries : List ElementId}
    (h : Sound t (pending ∪ { c | c ∈ entries })) (hn : entries.Nodup)
    (hp : ∀ c ∈ entries, c ∉ pending) :
    (entries.forM Tree.removeSubtree).Ensures t (fun _ t' => Sound t' pending)
      fun _ _ => False := by
  refine (ensures_forM
    (I := fun cs t => Sound t (pending ∪ { c | c ∈ cs }) ∧ cs.Nodup ∧ ∀ c ∈ cs, c ∉ pending)
    ?_ ⟨h, hn, hp⟩).mono (fun _ t' hd => ?_) fun _ _ hf => hf
  rotate_left
  · have hnil : pending ∪ { c | c ∈ ([] : List ElementId) } = pending := by simp
    rw [← hnil]
    exact hd.1
  · intro c cs t hinv
    obtain ⟨h, hn, hp⟩ := hinv
    rw [List.nodup_cons] at hn
    obtain ⟨ce, t', -, ht', -, -, h'⟩ := h.removeEntry hn.1 (hp c List.mem_cons_self)
    rw [ensures_of_ok ht']
    exact ⟨h', hn.2, fun x hx => hp x (List.mem_cons_of_mem c hx)⟩

/-! ## Default states -/

theorem sound_clear (pending : Set ElementId) (id : ElementId) :
    Leads (Keeping (Sound · pending)) (clear id) := by
  unfold clear get
  refine leads_reading_bind fun t e he h => ?_
  rw [element_eq_ok_iff] at he
  split
  · next l hl =>
    rw [on_bind, on_update, element, he]
    simp only
    have hun := h.unlink he hl List.nil_subperm
      (f := fun e => { e with content := .list { l with members := [] } }) rfl
    simp only [List.map_nil, List.not_mem_nil, not_false_eq_true, and_true] at hun
    have hdisj : ∀ c ∈ l.entries, c ∉ pending := by
      intro c hc
      exact (h.of_mem_below he (List.mem_append_right _ (by rw [hl]; exact hc))).1
    have hrm := hun.removeEntries (h.entries he hl) hdisj
    exact rel_of_ensures (R := fun _ t' => Sound t' pending)
      (hrm.mono (fun _ _ hd => hd) fun _ _ hf => hf.elim)
  · refine rel_bind (R := Keeping (Sound · pending)) (leads_ofExcept _ t) (fun r t' hr => ?_) h
    obtain ⟨items, content⟩ := r
    rw [on_ofExcept, Prod.mk.injEq] at hr
    obtain ⟨hr, rfl⟩ := hr
    have hsame := sameFrame_update_content he (Content.sameFrame_of_clear hr)
    refine rel_bind (fun ht => ht.sameFrame hsame) fun _ t' _ => leads_changing (fun t ht => ?_) t'
    obtain ⟨hs, hl, hm⟩ := foldl_unregisterMember e e.content.members t
    exact ht.sameFrame (sameFrame_of_slots hs hl hm)

theorem sound_unset (pending : Set ElementId) (id : ElementId) :
    Leads (Keeping (Sound · pending)) (unset id) :=
  (leads_reading _).bind fun _ => leads_forM fun holder _ => sound_clear pending holder

/-! ## Assigning -/

/-- Every hook of a sound tree unsets an element's contents. -/
theorem frameStable_sound (pending : Set ElementId) :
    FrameStable (Sound · pending) fun hook => ∃ c, hook = .contents c where
  plan := fun h hp hook hm => by
    obtain ⟨owner, e, field, he, hf⟩ := mem_unsetters_of_planFrom hp hm
    obtain ⟨c, hc, -⟩ := h.unsetter he (Assoc.mem_of_get?_eq_some hf)
    exact ⟨c, hc⟩
  unset := fun {hook} hg => by
    obtain ⟨c, rfl⟩ := hg
    exact sound_unset pending c
  same := fun hs h => h.sameFrame hs

end DataTree.Tree
