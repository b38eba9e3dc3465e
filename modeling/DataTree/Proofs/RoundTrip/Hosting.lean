import DataTree.Proofs.Accept.Plans
import DataTree.Proofs.RoundTrip.Nested

/-!
# DataTree.Proofs.RoundTrip.Hosting

A list with an entry too many.

An entry that is added comes behind everything else, into the last place of its list.  As
long as nothing is done but within it, the tree is what it was, but for the entry and for
marks (`Tree.Hosts`): so it is right after adding (`hosts_of_add`), and it stays so
(`Hosts.reaches`).  Deleting takes away all of the entry, and what is left is what there
was (`Hosts.ensures_delete`).
-/

namespace DataTree

open Edit Outcome

/-! ## Tables -/

namespace KeyedList

/-- Taking out what was put in last leaves what there was. -/
theorem take?_insert {l : KeyedList} {key : String} (h : key ∉ l.keys) (entry : ElementId) :
    (l.insert key entry).take? key = some (entry, l) := by
  have hmembers : (l.insert key entry).members = l.members ++ [(key, entry)] :=
    Assoc.insert_eq_append h entry
  have herase : Assoc.erase key (l.members ++ [(key, entry)]) = l.members := by
    have hnone : Assoc.erase key l.members = l.members := Assoc.erase_of_not_mem_keys h
    rw [Assoc.erase] at hnone ⊢
    rw [List.filter_append, hnone]
    simp
  have hswap : Assoc.swapErase key (l.members ++ [(key, entry)]) = l.members := by
    simp [Assoc.swapErase]
  have hget : (l.insert key entry).get? key = some entry := Assoc.get?_insert_self _ _ _
  rw [take?, hget, Option.map_some, hmembers, herase, hswap, ite_self]
  rfl

end KeyedList

namespace Tree

variable {t t₀ t' : Tree} {id entry x : ElementId} {e : Element} {l : KeyedList} {key : String}
  {n : Nat}

/-! ## Other lists -/

theorem unmarked_relist (f : KeyedList → KeyedList) (e : Element) :
    (relist f e).unmarked = relist f e.unmarked := by
  obtain ⟨_, _, _, _, _, _, _, _, _, _, content, _, _, _, _⟩ := e
  cases content <;> rfl

/-- Old elements that are alike are so with another list. -/
theorem Alike.withList (h : Alike n t t') (id : ElementId) (l : KeyedList) :
    Alike n (t.withList id l) (t'.withList id l) := by
  have hcomm : ∀ o : Option Element, (o.map (relist fun _ => l)).map Element.unmarked
      = (o.map Element.unmarked).map (relist fun _ => l) := by
    intro o
    cases o with
    | none => rfl
    | some e => exact congrArg some (unmarked_relist _ e)
  intro x hx
  rw [Tree.withList, Tree.withList, element?_modifyElement, element?_modifyElement]
  split
  · rw [hcomm, hcomm, h hx]
  · exact h hx

/-- Putting an entry into a list and taking it out again. -/
theorem withList_enlisted (h : t.held id = some (.list l)) (key : String) (entry x : ElementId) :
    ((t.enlisted id l key entry).withList id l).element? x = t.element? x := by
  rw [withList, element?_modifyElement, element?_enlisted, element?_modifyElement]
  split
  · next hx =>
    obtain ⟨e, he, hl⟩ := held_eq_some_iff.1 h
    rw [hx, he, Option.map_some, Option.map_some, relist_of_list hl,
      relist_of_list (l := l.insert key entry) rfl]
    obtain ⟨_, _, _, _, _, _, _, _, _, _, content, _, _, _, _⟩ := e
    exact congrArg (fun content => some (Element.mk _ _ _ _ _ _ _ _ _ _ content _ _ _ _)) hl.symm
  · rfl

theorem held_enlisted (h : t.held id = some (.list l)) (key : String) (entry : ElementId) :
    (t.enlisted id l key entry).held id = some (.list (l.insert key entry)) := by
  obtain ⟨e, he, hl⟩ := held_eq_some_iff.1 h
  refine held_eq_some_iff.2 ⟨relist (·.insert key entry) e, ?_, by rw [relist_of_list hl]⟩
  rw [element?_enlisted, element?_modifyElement_self he]

/-! ## Hosting an entry -/

/-- But for the entry `entry` that the list `id` has under `key`, behind everything else, and for
marks, the tree is `t₀`, where the list is `l`. -/
structure Hosts (t₀ : Tree) (id : ElementId) (l : KeyedList) (key : String) (entry : ElementId)
    (t : Tree) : Prop where
  nest : t.Nest entry
  lt : id.index < entry.index
  fresh : ∀ {x : ElementId}, entry.index ≤ x.index → t₀.element? x = none
  held : t.held id = some (.list (l.insert key entry))
  alike : Alike entry.index t₀ (t.withList id l)
  registry : t.registry.before entry.index = t₀.registry.before entry.index

/-- What is done within the entry does not concern its host. -/
theorem Hosts.reaches (h : Hosts t₀ id l key entry t) (hr : Reaches (Inside entry) t t') :
    Hosts t₀ id l key entry t' := by
  obtain ⟨hnest, hc⟩ := h.nest.reaches hr
  exact ⟨hnest, h.lt, h.fresh, (hc.alike.held h.lt).trans h.held,
    trans_of (Alike _) h.alike (hc.alike.withList id l), hc.registry.trans h.registry⟩

/-- Right after an entry was added, the tree hosts it. -/
theorem hosts_of_add (h : t.Settled) (he : t.element? id = some e) (hl : e.content = .list l)
    (hkeyed : l.schema.key.isKeyless = false) (hplain : l.schema.PlainKeys) {key' : String}
    (hadd : (add id (some key)).on t = (.ok key', t')) :
    key' = key ∧ key ∉ l.keys ∧ ∃ entry, Hosts t id l key entry t' := by
  have hsettled : t'.Settled := by
    have hregular : t.Regular (.add id (some key)) := trivial
    have hafter : (Operation.add id (some key)).after t = t' := congrArg Prod.snd hadd
    exact hafter ▸ h.after hregular trivial
  have hends : (add id (some key)).Ensures t (fun key' t' => key' = key ∧ key ∉ l.keys ∧
      ∃ (entry : ElementId) (t₁ t₂ : Tree), t₁.slots = t.slots ∧ t₁.registry = t.registry ∧
        t₁.Joined id l key entry t₂ ∧ t'.slots = t₂.slots ∧
        t'.registry = t₂.registry) fun _ _ => True := by
    refine ensures_add (fun _ _ => trivial) fun {e' _} he' _ => ?_
    obtain rfl : e = e' := Option.some.inj (he.symm.trans he')
    refine (ensures_joined (h.tell (.adding e.path)) (some key) fun {e' l'} he' hl' => ?_).mono
      (fun key' t₂ hd => ?_) fun _ _ _ => trivial
    · obtain rfl : e = e' := Option.some.inj (he.symm.trans he')
      obtain rfl := Content.list.inj (hl.symm.trans hl')
      exact hplain
    · obtain ⟨e', l', entry, parts, path, he', hl', hkey, hjoin⟩ := hd
      obtain rfl : e = e' := Option.some.inj (he.symm.trans he')
      obtain rfl := Content.list.inj (hl.symm.trans hl')
      obtain ⟨hnew, -, hk, -⟩ := (entryKey_eq_ok_iff hkeyed).1 hkey
      exact ⟨hk, hnew, entry, t.tell (.adding e.path), t₂, rfl, rfl, hk ▸ hjoin, rfl, rfl⟩
  obtain ⟨hk, hnew, entry, t₁, t₂, hs₁, hr₁, ⟨t₃, ids, hfilled, rfl⟩, hs₂, hr₂⟩ := hends.of_ok hadd
  refine ⟨hk, hnew, entry, ?_⟩
  have hlt : id.index < entry.index := by
    rw [hfilled.entry_eq, hs₁]
    exact index_lt_of_element? he
  have hsize : entry.index = t₁.slots.size := by rw [hfilled.entry_eq]
  have h₁ : t₁.held id = some (.list l) := by
    rw [held_congr (element?_congr hs₁ id)]
    exact held_eq_some_iff.2 ⟨e, he, hl⟩
  have h₃ : t₃.held id = some (.list l) := (hfilled.confined.alike.held (hsize ▸ hlt)).trans h₁
  have hmarks : ∀ {m}, Alike m (t₃.enlisted id l key entry) t' := fun {m} =>
    trans_of (Alike m) (alike_markChanged ids _) (alike_of_slots hs₂)
  have hheld := (hmarks.held (Nat.lt_succ_self _)).trans (held_enlisted h₃ key entry)
  have hrooted : t'.Rooted entry := by
    intro x xe hx
    rw [element?_congr hs₂] at hx
    exact Rooted.shrinks (Rooted.enlisted hfilled.under id l key entry)
      (shrinks_markChanged ids _) hx
  have hfresh : ∀ {x : ElementId}, entry.index ≤ x.index → t.element? x = none := fun hx =>
    element?_eq_none_of_size_le (by rw [← hs₁, ← hsize]; exact hx)
  refine ⟨⟨hsettled, ?_, hrooted⟩, hlt, hfresh, hheld, ?_, ?_⟩
  · obtain ⟨e', he', hl'⟩ := held_eq_some_iff.1 hheld
    have hm : (key, entry) ∈ (l.insert key entry).members := by
      rw [KeyedList.insert, Assoc.insert_eq_append hnew]
      exact List.mem_append_right _ List.mem_cons_self
    obtain ⟨-, ce, hce, -⟩ := hsettled.sound.entry he' hl' hm
    exact index_lt_of_element? hce
  · have hback : Alike entry.index t₃ ((t₃.enlisted id l key entry).withList id l) :=
      alike_of_element fun _ => withList_enlisted h₃ key entry _
    refine trans_of (Alike _) (alike_of_slots hs₁)
      (trans_of (Alike _) (hsize ▸ hfilled.confined.alike) ?_)
    exact trans_of (Alike _) hback (hmarks.withList id l)
  · have henlisted : (t₃.enlisted id l key entry).registry = t₃.registry := by
      unfold enlisted
      split <;> rfl
    rw [hr₂, (quiet_markChanged ids _).registry, henlisted, hsize, hfilled.confined.registry, hr₁]

/-! ## Deleting the entry -/

theorem Choiceless.hooked (h : t.Choiceless) : t.Hooked := fun id e k m he hk => by
  rw [h he] at hk
  exact absurd hk (ChoiceTable.not_has_empty k m)

/-- Removing an entry that is in no list removes everything behind it, and is confined to that. -/
theorem ensures_removeNest (h : Sound t {entry}) (hr : t.Rooted entry)
    (hneat : t.Neat entry.index) :
    (removeSubtree entry).Ensures t
      (fun _ t' => Confined entry.index t t' ∧ ∀ x, entry.index ≤ x.index → t'.element? x = none)
      fun _ _ => False := by
  have hremove := ((h.removePending (Set.mem_singleton entry)).and
    ((saves_removeSubtree (n := entry.index) entry).ensures t)).and
      ((shrinks_removeSubtree entry).ensures t)
  refine hremove.mono (fun _ t' hd => ?_) fun _ _ hf => hf.1.1
  obtain ⟨⟨⟨-, hgone, hstays⟩, hsaves⟩, hs⟩ := hd
  have halike : Alike entry.index t t' := alike_of_element fun {x} hx => hstays x fun hu =>
    absurd hx (Nat.not_lt.2 (h.index_le_of_under hu))
  refine ⟨halike.confined (hsaves hneat).2, fun x hx => ?_⟩
  cases hxe : t.element? x with
  | none => exact hs.element?_eq_none hxe
  | some xe =>
    exact hgone x (under_of_rooted h hr (fun y hy => by rw [Set.mem_singleton_iff.1 hy]) hxe hx)

/-- Deleting takes away the entry with all that was done within it. -/
theorem Hosts.ensures_delete (h : Hosts t₀ id l key entry t) (hnew : key ∉ l.keys) :
    (delete id key).Ensures t
      (fun _ t' => Confined entry.index t₀ t' ∧ ∀ x, entry.index ≤ x.index → t'.element? x = none)
      fun _ _ => False := by
  obtain ⟨e, he, hl⟩ := held_eq_some_iff.1 h.held
  have hlist : ∀ {t₁ : Tree} {err}, t₁.element? id = some e → t₁.listFor "add" id ≠ .error err := by
    intro t₁ err he₁ herr
    rw [listFor_eq_ok_iff.2 ⟨e, he₁, hl⟩] at herr
    cases herr
  rw [delete, listToChange, ensures_reading_bind]
  refine ⟨fun _ _ => ?_, fun err herr => hlist he herr⟩
  rw [ensures_get_bind_of he]
  rw [ensures_changing_bind, ensures_reading_bind]
  have htold := h.nest.tell (.deleting e.path key)
  have hget : (t.tell (.deleting e.path key)).element? id = some e := he
  refine ⟨fun p hp => ?_, fun err herr => ?_⟩
  · rw [ensures_reading_bind]
    refine ⟨fun l' hl' => ?_, fun err herr => hlist hget herr⟩
    obtain rfl : l' = l.insert key entry := by
      rw [listFor_eq_ok_iff.2 ⟨e, hget, hl⟩] at hl'
      exact (Except.ok.inj hl').symm
    rw [KeyedList.take?_insert hnew]
    rw [ensures_bind, updateList_eq, ensures_update_of hget]
    -- Without the entry the list is what it was.
    let t₁ := (t.tell (.deleting e.path key)).withList id l
    have htaken : Sound t₁ {entry} :=
      htold.sound.takeEntry hget hl (KeyedList.take?_insert hnew entry)
    have hneat : t₁.Neat entry.index := htold.neat.of_accounts
      (htold.accounts.modifyElement fun e _ => by
      unfold relist
      split <;> exact ⟨rfl, rfl, rfl⟩)
    have hback : Confined entry.index t₀ t₁ := ⟨h.alike, h.registry⟩
    refine ((ensures_removeNest htaken (Rooted.relist htold.rooted id _) hneat).mono
      (fun _ _ hd => hd) fun _ _ hf => hf).bind fun _ t₂ h₂ => ?_
    obtain ⟨hconfined, hgone⟩ := h₂
    have hlive : ∀ y ∈ p.marks, (t₂.element? y).isSome := by
      intro y hy
      obtain ⟨ye, hye⟩ := exists_of_mem_marks hp hy
      have hlt := Nat.lt_of_le_of_lt (index_le_of_mem_marks htold.sound hp hy) h.lt
      have hkeeps : (t₁.element? y).isSome = _ := isSome_element?_modifyElement _ _ _ y
      refine hconfined.alike.covers.isSome hlt ?_
      rw [hkeeps, hye]
      rfl
    refine ((ensures_commit_of_marks (unsets_of_planFrom htold.mirrored.choiceless hp) hlive).mono
      (fun _ _ hd => hd) fun _ _ hf => hf.elim).bind fun _ t₃ h₃ => ?_
    subst h₃
    rw [ensures_changing]
    have hmark : Confined entry.index t₂ ((markChanged p.marks).on t₂).2 :=
      ⟨alike_markChanged p.marks t₂, by rw [(quiet_markChanged p.marks t₂).registry]⟩
    have hall := trans_of (Confined _) hback (trans_of (Confined _) hconfined hmark)
    exact ⟨⟨hall.alike, hall.registry⟩, fun x hx =>
      (shrinks_markChanged p.marks t₂).element?_eq_none (hgone x hx)⟩
  · obtain ⟨p, hp⟩ := exists_plan htold.sound (Choiceless.hooked htold.mirrored.choiceless) he
    rw [hp] at herr
    cases herr

end Tree

end DataTree
