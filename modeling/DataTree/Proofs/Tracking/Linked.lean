import DataTree.Proofs.Keys.Entry

/-!
# DataTree.Proofs.Tracking.Linked

Links, wherever subtrees are made.

A subtree may be made below anything, and in the place of another one.  What was
displaced still has its parent, but nothing lists it any more.  So a parent need not
list all that is below it; but what it does list is there, and has it as its parent
(`Linked`).

The key leaves of every list are of types without references.
-/

namespace DataTree

open Edit Outcome

mutual

/-- The key leaves of all lists of a schema are of types without references. -/
def Schema.PlainKeyed : Schema → Prop
  | .leaf _ _ | .leafList _ _ => True
  | .container children _ => Schema.AllPlainKeyed children
  | .list ⟨key, entry, ordered⟩ _ =>
    ListSchema.PlainKeys ⟨key, entry, ordered⟩ ∧ Schema.AllPlainKeyed entry

/-- The same for several children. -/
def Schema.AllPlainKeyed : List (Child Schema) → Prop
  | [] => True
  | ⟨_, _, node⟩ :: rest => Schema.PlainKeyed node ∧ Schema.AllPlainKeyed rest

end

/-- The key leaves of a list, and of the lists in its entries, are of types without references. -/
def ListSchema.PlainThroughout (s : ListSchema Schema) : Prop :=
  s.PlainKeys ∧ Schema.AllPlainKeyed s.entry

mutual

theorem Schema.PlainKeyed.uses : ∀ {schema : Schema}, schema.PlainKeyed →
    schema.Uses (fun _ => True) ListSchema.PlainThroughout
  | .leaf _ _, _ => by rw [Schema.Uses]; exact trivial
  | .leafList _ _, _ => by rw [Schema.Uses]; exact trivial
  | .container children _, h => by
    rw [Schema.PlainKeyed] at h
    rw [Schema.Uses]
    exact Schema.AllPlainKeyed.allUse h
  | .list ⟨key, entry, ordered⟩ _, h => by
    rw [Schema.PlainKeyed] at h
    rw [Schema.Uses]
    exact h

theorem Schema.AllPlainKeyed.allUse : ∀ {children : List (Child Schema)},
    Schema.AllPlainKeyed children → Schema.AllUse (fun _ => True)
      ListSchema.PlainThroughout children
  | [], _ => by rw [Schema.AllUse]; exact trivial
  | ⟨_, _, node⟩ :: rest, h => by
    rw [Schema.AllPlainKeyed] at h
    rw [Schema.AllUse]
    exact ⟨trivial, h.1.uses, h.2.allUse⟩

end

namespace Tree

variable {t t' : Tree} {id c x : ElementId} {e : Element}

/-! ## The invariant -/

/-- What is listed is there, under its name or key only, and has the one that lists it as its
parent. -/
structure Linked (t : Tree) : Prop where
  id_eq : ∀ {id e}, t.element? id = some e → e.id = id
  parent_lt : ∀ {id e p}, t.element? id = some e → e.parent = some p → p.index < id.index
  names : ∀ {id e}, t.element? id = some e → (Assoc.keys e.children).Nodup
  keys : ∀ {id e l}, t.element? id = some e → e.content = .list l → l.keys.Nodup
  child : ∀ {id e name c}, t.element? id = some e → (name, c) ∈ e.children →
    e.content = .container ∧ ∃ ce, t.element? c = some ce ∧ ce.parent = some id ∧ ce.name = name
  entry : ∀ {id e l key c}, t.element? id = some e → e.content = .list l → (key, c) ∈ l.members →
    ∃ ce, t.element? c = some ce ∧ ce.parent = some id
  plain : ∀ {id e l}, t.element? id = some e → e.content = .list l → l.schema.PlainThroughout

/-- The tree without elements. -/
theorem linked_empty : Linked {} := by
  have hnone : ∀ id, ({} : Tree).element? id = none := fun id => by simp [element?]
  constructor <;> simp [hnone]

/-- What is below an element is there, with this element as its parent. -/
theorem Linked.of_mem_below (h : t.Linked) (he : t.element? id = some e) (hc : c ∈ e.below) :
    ∃ ce, t.element? c = some ce ∧ ce.parent = some id := by
  obtain ⟨name, hm⟩ | ⟨l, key, hl, hm⟩ := Element.mem_below hc
  · obtain ⟨-, ce, hce, hpar, -⟩ := h.child he hm
    exact ⟨ce, hce, hpar⟩
  · exact h.entry he hl hm

/-- What is below an element is younger. -/
theorem Linked.index_lt (h : t.Linked) (he : t.element? id = some e) (hc : c ∈ e.below) :
    id.index < c.index := by
  obtain ⟨ce, hce, hpar⟩ := h.of_mem_below he hc
  exact h.parent_lt hce hpar

theorem Linked.tell (h : t.Linked) (event : Event) : (t.tell event).Linked :=
  ⟨h.id_eq, h.parent_lt, h.names, h.keys, h.child, h.entry, h.plain⟩

/-- Elements and links may go, as long as what is still listed is still there. -/
theorem Linked.shrinks (h : t.Linked) (hs : t.Shrinks t')
    (hbelow : ∀ {id c}, t'.Above id c → (t'.element? c).isSome) : t'.Linked := by
  constructor
  case id_eq =>
    intro id e' he'
    obtain ⟨e, he, hse⟩ := hs.element he'
    rw [Element.id_of_bare hse.bare, h.id_eq he]
  case parent_lt =>
    intro id e' p he' hp
    obtain ⟨e, he, hse⟩ := hs.element he'
    exact h.parent_lt he (Element.parent_of_bare hse.bare ▸ hp)
  case names =>
    intro id e' he'
    obtain ⟨e, he, hse⟩ := hs.element he'
    exact (hse.children.map Prod.fst).nodup (h.names he)
  case keys =>
    intro id e' l' he' hl
    obtain ⟨e, he, hse⟩ := hs.element he'
    obtain ⟨members, hc, hsub⟩ := hse.list hl
    exact Element.nodup_map_of_subperm hsub Prod.fst (h.keys he hc)
  case child =>
    intro id e' name c he' hm
    obtain ⟨e, he, hse⟩ := hs.element he'
    obtain ⟨hcont, ce, hce, hpar, hname⟩ := h.child he (hse.children.subset hm)
    obtain ⟨ce', hce'⟩ := Option.isSome_iff_exists.1
      (hbelow ⟨e', he', Element.mem_below_of_child hm⟩)
    obtain ⟨ce₂, hce₂, hsce⟩ := hs.element hce'
    obtain rfl : ce = ce₂ := Option.some.inj (hce.symm.trans hce₂)
    exact ⟨hse.container.2 hcont, ce', hce', by rw [Element.parent_of_bare hsce.bare, hpar],
      by rw [Element.name_of_bare hsce.bare, hname]⟩
  case entry =>
    intro id e' l' key c he' hl hm
    obtain ⟨e, he, hse⟩ := hs.element he'
    obtain ⟨members, hc, hsub⟩ := hse.list hl
    obtain ⟨ce, hce, hpar⟩ := h.entry he hc (hsub.subset hm)
    obtain ⟨ce', hce'⟩ := Option.isSome_iff_exists.1
      (hbelow ⟨e', he', Element.mem_below_of_entry hl hm⟩)
    obtain ⟨ce₂, hce₂, hsce⟩ := hs.element hce'
    obtain rfl : ce = ce₂ := Option.some.inj (hce.symm.trans hce₂)
    exact ⟨ce', hce', by rw [Element.parent_of_bare hsce.bare, hpar]⟩
  case plain =>
    intro id e' l' he' hl
    obtain ⟨e, he, hse⟩ := hs.element he'
    obtain ⟨members, hc, -⟩ := hse.list hl
    have hplain := h.plain he hc
    exact hplain

theorem Linked.sameFrame (h : t.Linked) (hs : t.SameFrame t') : t'.Linked := by
  refine h.shrinks hs.shrinks fun {id c} ha => ?_
  obtain ⟨e, he, hc⟩ := hs.above ha
  obtain ⟨ce, hce, -⟩ := h.of_mem_below he hc
  rw [hs.isSome, hce]
  rfl

/-! ## Removing -/

/-- A list of elements to be removed: of those that list one of them it has all but the parent of
the first. -/
theorem mem_of_subtreeFrom {fuel : Nat} {doomed : List ElementId}
    (h : t.subtreeFrom fuel id = .ok doomed) :
    id ∈ doomed ∧ ∀ x ∈ doomed, x = id ∨ ∃ q ∈ doomed, t.Above q x := by
  induction fuel generalizing id doomed with
  | zero => cases h
  | succ fuel ih =>
    rw [subtreeFrom, bind_eq_ok] at h
    obtain ⟨e, he, h⟩ := h
    rw [element_eq_ok_iff] at he
    obtain ⟨below, hbelow, h⟩ := bind_eq_ok.1 h
    obtain rfl := pure_eq_ok.1 h
    have hself : id ∈ below.flatten ++ [id] := List.mem_append_right _ (List.mem_singleton_self id)
    refine ⟨hself, fun x hx => ?_⟩
    obtain hx | hx := List.mem_append.1 hx
    · obtain ⟨ds, hds, hxds⟩ := List.mem_flatten.1 hx
      obtain ⟨c, hc, hsub⟩ := mem_of_mapM hbelow hds
      obtain rfl | ⟨q, hq, hqx⟩ := (ih hsub).2 x hxds
      · exact .inr ⟨id, hself, e, he, hc⟩
      · exact .inr ⟨q, List.mem_append_left _ (List.mem_flatten.2 ⟨ds, hds, hq⟩), hqx⟩
    · exact .inl (List.mem_singleton.1 hx)

/-- What is taken out is no longer listed. -/
theorem Linked.not_mem_detach (h : t.Linked) {p : ElementId} {pe : Element}
    (hp : t.element? p = some pe) (he : t.element? id = some e) :
    id ∉ (pe.detach e.name id).below := by
  intro hm
  have hname : ∀ {name}, (name, id) ∈ pe.children → name = e.name := by
    intro name hm
    obtain ⟨-, ce, hce, -, hname⟩ := h.child hp hm
    obtain rfl : e = ce := Option.some.inj (he.symm.trans hce)
    exact hname.symm
  have hlist : ∀ {name}, (name, id) ∈ pe.children → pe.content = .container :=
    fun hm => (h.child hp hm).1
  unfold Element.detach at hm
  split at hm
  · next hcont =>
    split at hm
    · obtain ⟨name, hm⟩ | ⟨l, key, hl, -⟩ := Element.mem_below hm
      · obtain ⟨hm, hne⟩ := Assoc.mem_erase_iff.1 hm
        exact hne (hname hm)
      · cases hcont.symm.trans hl
    · next hno =>
      obtain ⟨name, hm⟩ | ⟨l, key, hl, -⟩ := Element.mem_below hm
      · obtain rfl := hname hm
        exact hno (Assoc.get?_eq_some_of_mem (h.names hp) hm)
      · cases hcont.symm.trans hl
  · next l hl =>
    obtain ⟨name, hm⟩ | ⟨l', key, hl', hm⟩ := Element.mem_below hm
    · cases (hlist hm).symm.trans hl
    · obtain rfl := Content.list.inj hl'
      simp [KeyedList.forget] at hm
  · next hcont hl =>
    obtain ⟨name, hm⟩ | ⟨l', key, hl', -⟩ := Element.mem_below hm
    · exact hcont (hlist hm)
    · exact hl l' hl'

/-- Removing a subtree keeps the links. -/
theorem linked_removeSubtree (id : ElementId) : Leads (Keeping Linked) (removeSubtree id) := by
  intro t h
  have hs := shrinks_removeSubtree id t
  revert hs
  rw [removeSubtree, on_bind, on_reading]
  cases hdoomed : t.subtree id with
  | error err => exact fun _ => h
  | ok doomed =>
    simp only [on_bind, on_get]
    cases he : t.element id with
    | error err => exact fun _ => h
    | ok e =>
      simp only [on_changing]
      rw [element_eq_ok_iff] at he
      intro hs
      refine h.shrinks hs fun {p c} ha => ?_
      have hel := (foldl_drop doomed (t.detach e)).1
      have hclosed := mem_of_subtreeFrom hdoomed
      obtain ⟨pe', hpe', hc'⟩ := ha
      obtain ⟨pe, hpe, hspe⟩ := hs.element hpe'
      have hc : c ∈ pe.below := by
        rw [Element.below_eq] at hc' ⊢
        obtain hc' | hc' := List.mem_append.1 hc'
        · exact List.mem_append_left _ ((hspe.children.map Prod.snd).subset hc')
        · exact List.mem_append_right _ (List.map_subset Prod.snd hspe.links.subset hc')
      obtain ⟨ce, hce, hpar⟩ := h.of_mem_below hpe hc
      have hp : p ∉ doomed := by
        intro hp
        rw [hel, if_pos hp] at hpe'
        cases hpe'
      have hcd : c ∉ doomed := by
        intro hcd
        obtain rfl | ⟨q, hq, qe, hqe, hcq⟩ := hclosed.2 c hcd
        · obtain rfl : e = ce := Option.some.inj (he.symm.trans hce)
          rw [hel, if_neg hp, element?_detach, if_pos hpar, hpe, Option.map_some,
            h.id_eq he] at hpe'
          obtain rfl := Option.some.inj hpe'
          exact h.not_mem_detach hpe he hc'
        · obtain ⟨ce₂, hce₂, hpar₂⟩ := h.of_mem_below hqe hcq
          obtain rfl : ce = ce₂ := Option.some.inj (hce.symm.trans hce₂)
          obtain rfl : p = q := Option.some.inj (hpar.symm.trans hpar₂)
          exact hp hq
      rw [hel, if_neg hcd, element?_detach]
      split <;> simp [hce]

/-- What is removed is gone. -/
theorem gone_of_removeSubtree (id : ElementId) (t : Tree) :
    (removeSubtree id).Ensures t (fun _ t' => t'.element? id = none) fun _ t' => t' = t := by
  rw [removeSubtree, ensures_reading_bind]
  refine ⟨fun doomed hdoomed => ?_, fun _ _ => rfl⟩
  rw [ensures_get_bind]
  refine ⟨fun e _ => ?_, fun _ => rfl⟩
  rw [ensures_changing, (foldl_drop doomed (t.detach e)).1, if_pos (mem_of_subtreeFrom hdoomed).1]

/-! ## Unsetting -/

/-- Clearing keeps the links. -/
theorem linked_clear (id : ElementId) : Leads (Keeping Linked) (clear id) := by
  unfold clear get
  refine leads_reading_bind fun t e he => ?_
  rw [element_eq_ok_iff] at he
  split
  · next l hl =>
    have hempty : Keeping Linked t
        ((update id fun e => { e with content := .list { l with members := [] } }).on t).2 := by
      intro h
      rw [on_update, element, he]
      have hs : t.Shrinks (t.modifyElement id fun e =>
          { e with content := .list { l with members := [] } }) :=
        shrinks_unlink he hl List.nil_subperm rfl
      refine h.shrinks hs fun {p c} ha => ?_
      obtain ⟨pe, hpe, hc⟩ := hs.above ha
      obtain ⟨ce, hce, -⟩ := h.of_mem_below hpe hc
      rw [isSome_element?_modifyElement, hce]
      rfl
    exact rel_bind hempty fun _ t' _ => leads_forM (fun entry _ => linked_removeSubtree entry) t'
  · refine rel_bind (leads_ofExcept _ t) fun r t' hr => ?_
    obtain ⟨items, content⟩ := r
    rw [on_ofExcept, Prod.mk.injEq] at hr
    obtain ⟨hr, rfl⟩ := hr
    have hsame := sameFrame_update_content he (Content.sameFrame_of_clear hr)
    refine rel_bind (fun ht => ht.sameFrame hsame) fun _ t' _ => leads_changing (fun t ht => ?_) t'
    obtain ⟨hs, hl, hm⟩ := foldl_unregisterMember e e.content.members t
    exact ht.sameFrame (sameFrame_of_slots hs hl hm)

/-- A hook keeps the links. -/
theorem linked_runUnset (hook : Unset) : Leads (Keeping Linked) (runUnset hook) := by
  cases hook with
  | contents id =>
    exact (leads_reading _).bind fun _ => leads_forM fun holder _ => linked_clear holder
  | subtree id => exact linked_removeSubtree id

/-- Assigning and editing keep the links. -/
theorem frameStable_linked : FrameStable Linked fun _ => True where
  plan := fun _ _ _ _ => trivial
  unset := fun {hook} _ => linked_runUnset hook
  same := fun hs h => h.sameFrame hs

/-! ## Building -/

variable {content : Content} {spec : ElementSpec}

/-- An element more, which its parent lists if that is a container. -/
theorem linked_wrap (hinit : content.IsInitial)
    (hplain : ∀ l, content = .list l → l.schema.PlainThroughout) :
    Leads (Keeping Linked) (wrap content spec) := by
  refine leads_wrap fun t hparent h => ?_
  show (t.made content spec).Linked
  have hblank : ∀ {l : KeyedList}, content = .list l → l.members = [] := by
    intro l hl
    rw [hl] at hinit
    exact hinit
  have hchild : ∀ {p c ce name}, t.element? c = some ce → ce.parent = some p → ce.name = name →
      ∃ ce', (t.made content spec).element? c = some ce' ∧ ce'.parent = some p ∧
        ce'.name = name := by
    intro p c ce name hce hpar hname
    obtain ⟨ce', hce', htrunk⟩ := exists_made content spec hce
    exact ⟨ce', hce', (Element.parent_of_trunk htrunk).trans hpar,
      (Element.name_of_trunk htrunk).trans hname⟩
  constructor
  case id_eq =>
    intro x e' he'
    obtain ⟨rfl, rfl⟩ | ⟨e, he, htrunk, -⟩ := made_cases he'
    · rfl
    · rw [Element.id_of_trunk htrunk, h.id_eq he]
  case parent_lt =>
    intro x e' p he' hp
    obtain ⟨rfl, rfl⟩ | ⟨e, he, htrunk, -⟩ := made_cases he'
    · obtain ⟨pe, hpe⟩ := hparent p hp
      exact index_lt_of_element? hpe
    · exact h.parent_lt he (Element.parent_of_trunk htrunk ▸ hp)
  case names =>
    intro x e' he'
    obtain ⟨rfl, rfl⟩ | ⟨e, he, -, hsame | ⟨-, -, hinsert⟩⟩ := made_cases he'
    · exact List.nodup_nil
    · rw [hsame]
      exact h.names he
    · rw [hinsert]
      exact Assoc.nodup_keys_insert (h.names he) _ _
  case keys =>
    intro x e' l he' hl
    obtain ⟨rfl, rfl⟩ | ⟨e, he, htrunk, -⟩ := made_cases he'
    · rw [KeyedList.keys, hblank hl]
      exact List.nodup_nil
    · exact h.keys he (Element.content_of_trunk htrunk ▸ hl)
  case child =>
    intro x e' name c he' hm
    obtain ⟨rfl, rfl⟩ | ⟨e, he, htrunk, hchildren⟩ := made_cases he'
    · cases hm
    · rw [Element.content_of_trunk htrunk]
      obtain hsame | ⟨hx, hcont, hinsert⟩ := hchildren
      · rw [hsame] at hm
        obtain ⟨hcont, ce, hce, hpar, hname⟩ := h.child he hm
        exact ⟨hcont, hchild hce hpar hname⟩
      · rw [hinsert] at hm
        obtain hm | hm := Assoc.mem_of_mem_insert hm
        · obtain ⟨rfl, rfl⟩ := Prod.mk.inj hm
          exact ⟨hcont, _, element?_made_self, hx, rfl⟩
        · obtain ⟨-, ce, hce, hpar, hname⟩ := h.child he hm
          exact ⟨hcont, hchild hce hpar hname⟩
  case entry =>
    intro x e' l key c he' hl hm
    obtain ⟨rfl, rfl⟩ | ⟨e, he, htrunk, -⟩ := made_cases he'
    · rw [hblank hl] at hm
      cases hm
    · obtain ⟨ce, hce, hpar⟩ := h.entry he (Element.content_of_trunk htrunk ▸ hl) hm
      obtain ⟨ce', hce', hpar', -⟩ := hchild hce hpar rfl
      exact ⟨ce', hce', hpar'⟩
  case plain =>
    intro x e' l he' hl
    obtain ⟨rfl, rfl⟩ | ⟨e, he, htrunk, -⟩ := made_cases he'
    · exact hplain l hl
    · exact h.plain he (Element.content_of_trunk htrunk ▸ hl)

/-- Entering a child into hooks and choices changes no links. -/
theorem linked_addField (name : String) (case : Option Case) (isLeaf : Bool) (child : ElementId) :
    Leads (Keeping Linked) (update id (addField name case isLeaf child)) := by
  refine leads_update fun t _ _ h => ?_
  have hchild : ∀ {p c ce}, t.element? c = some ce → ce.parent = some p →
      ∃ ce', (t.modifyElement id (addField name case isLeaf child)).element? c = some ce' ∧
        ce'.parent = some p ∧ ce'.name = ce.name := by
    intro p c ce hce hpar
    obtain ⟨ce', hce', hcore⟩ := exists_addField hce id name case isLeaf child
    exact ⟨ce', hce', (Element.parent_of_core hcore).trans hpar, Element.name_of_core hcore⟩
  constructor
  case id_eq =>
    intro x e' he'
    obtain ⟨e, he, hcore, -⟩ := addField_cases he'
    rw [Element.id_of_core hcore, h.id_eq he]
  case parent_lt =>
    intro x e' p he' hp
    obtain ⟨e, he, hcore, -⟩ := addField_cases he'
    exact h.parent_lt he (Element.parent_of_core hcore ▸ hp)
  case names =>
    intro x e' he'
    obtain ⟨e, he, hcore, -⟩ := addField_cases he'
    rw [Element.children_of_core hcore]
    exact h.names he
  case keys =>
    intro x e' l he' hl
    obtain ⟨e, he, hcore, -⟩ := addField_cases he'
    exact h.keys he (Element.content_of_core hcore ▸ hl)
  case child =>
    intro x e' name c he' hm
    obtain ⟨e, he, hcore, -⟩ := addField_cases he'
    obtain ⟨hcont, ce, hce, hpar, hname⟩ := h.child he (Element.children_of_core hcore ▸ hm)
    obtain ⟨ce', hce', hpar', hname'⟩ := hchild hce hpar
    exact ⟨(Element.content_of_core hcore).trans hcont, ce', hce', hpar', hname'.trans hname⟩
  case entry =>
    intro x e' l key c he' hl hm
    obtain ⟨e, he, hcore, -⟩ := addField_cases he'
    obtain ⟨ce, hce, hpar⟩ := h.entry he (Element.content_of_core hcore ▸ hl) hm
    obtain ⟨ce', hce', hpar', -⟩ := hchild hce hpar
    exact ⟨ce', hce', hpar'⟩
  case plain =>
    intro x e' l he' hl
    obtain ⟨e, he, hcore, -⟩ := addField_cases he'
    exact h.plain he (Element.content_of_core hcore ▸ hl)

end Tree

end DataTree
