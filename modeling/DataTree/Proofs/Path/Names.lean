import DataTree.Proofs.Choice.Session
import DataTree.Proofs.Path.Segments

/-!
# DataTree.Proofs.Path.Names

Trees in which everything is called by a plain name.

If a schema uses plain names only, then so does every tree that editing makes of it
(`named_of_grows`).  What is in the keys of entries does not matter here: keys are no
names.
-/

namespace DataTree

open Edit DataTree.Path

/-! ## Schemas with plain names -/

mutual

/-- Everything is called by a name that a path can hold, and so is every key leaf. -/
def Schema.Named : Schema → Prop
  | .leaf _ _ | .leafList _ _ => True
  | .container children _ => Schema.AllNamed children
  | .list ⟨key, entry, _⟩ _ => (∀ field ∈ key.fields, Inert field.toList) ∧ Schema.AllNamed entry

/-- The same for several children. -/
def Schema.AllNamed : List (Child Schema) → Prop
  | [] => True
  | ⟨name, _, node⟩ :: rest => IsName name ∧ Schema.Named node ∧ Schema.AllNamed rest

end

/-- The same for the key leaves and the children of the entries of a list. -/
def Schema.NamedEntries (list : ListSchema Schema) : Prop :=
  (∀ field ∈ list.key.fields, Inert field.toList) ∧ Schema.AllNamed list.entry

theorem Schema.named_list {list : ListSchema Schema} {default : Value} :
    (Schema.list list default).Named ↔ Schema.NamedEntries list := by
  obtain ⟨key, entry, ordered⟩ := list
  rw [Schema.Named, Schema.NamedEntries]

namespace Tree

variable {t t' : Tree} {pending : Set ElementId} {id c x : ElementId} {e : Element}
  {schema : Schema} {spec : ElementSpec}

/-! ## Trees with plain names -/

/-- The names of children and key leaves are plain, and a root is registered at the root. -/
structure Named (t : Tree) : Prop where
  child : ∀ {id e name c}, t.element? id = some e → (name, c) ∈ e.children → IsName name
  list : ∀ {id e l}, t.element? id = some e → e.content = .list l → Schema.NamedEntries l.schema
  root : ∀ {id e}, t.element? id = some e → e.parent = none → e.path = "/"

theorem named_empty : Named {} := by
  have hnone : ∀ id, ({} : Tree).element? id = none := fun id => by simp [element?]
  constructor <;> simp [hnone]

/-- Names stay plain when something is lost. -/
theorem Named.shrinks (h : Named t) (hs : t.Shrinks t') : Named t' where
  child := fun he' hm => by
    obtain ⟨e, he, hse⟩ := hs.element he'
    exact h.child he (hse.children.subset hm)
  list := fun he' hl => by
    obtain ⟨e, he, hse⟩ := hs.element he'
    obtain ⟨members, hc, -⟩ := hse.list hl
    have hlist := h.list he hc
    exact hlist
  root := fun he' hp => by
    obtain ⟨e, he, hse⟩ := hs.element he'
    rw [Element.path_of_bare hse.bare]
    exact h.root he (Element.parent_of_bare hse.bare ▸ hp)

theorem named_of_shrinks {α : Type} {edit : Edit α} (hs : Leads Shrinks edit) :
    Leads (Keeping Named) edit := fun t h => h.shrinks (hs t)

/-- Changing an element without touching its children, its parent and its path. -/
theorem Named.modifyElement (h : Named t) {f : Element → Element}
    (hf : ∀ e, t.element? id = some e → (f e).children = e.children ∧ (f e).parent = e.parent ∧
      (f e).path = e.path ∧ ∀ l, (f e).content = .list l → Schema.NamedEntries l.schema) :
    Named (t.modifyElement id f) := by
  constructor
  case child =>
    intro x xe name c hx hm
    obtain ⟨e, he, ⟨rfl, rfl⟩ | ⟨-, rfl⟩⟩ := modifyElement_cases hx
    · exact h.child he ((hf e he).1 ▸ hm)
    · exact h.child he hm
  case list =>
    intro x xe l hx hl
    obtain ⟨e, he, ⟨rfl, rfl⟩ | ⟨-, rfl⟩⟩ := modifyElement_cases hx
    · exact (hf e he).2.2.2 l hl
    · exact h.list he hl
  case root =>
    intro x xe hx hp
    obtain ⟨e, he, ⟨rfl, rfl⟩ | ⟨-, rfl⟩⟩ := modifyElement_cases hx
    · obtain ⟨-, hpar, hpath, -⟩ := hf e he
      rw [hpath]
      exact h.root he (hpar ▸ hp)
    · exact h.root he hp

/-! ## Building -/

/-- A description that brings a plain name with it where that is needed, and leaves the path
of a root open. -/
structure Suits (t : Tree) (spec : ElementSpec) : Prop where
  name : ∀ {p pe}, spec.parent = some p → t.element? p = some pe → pe.content = .container →
    IsName spec.name
  path : spec.parent = none → spec.registerPath = none

/-- A new element has a plain name if its specification does. -/
theorem named_wrap {content : Content} (h : Named t) (hs : t.Suits spec)
    (hl : ∀ l, content = .list l → Schema.NamedEntries l.schema) :
    (wrap content spec).Ensures t (fun _ => Named) fun _ => Named := by
  refine ensures_wrap_of (fun _ => ?_) fun _ _ => h
  constructor
  case child =>
    intro x xe name c hx hm
    obtain ⟨-, rfl⟩ | ⟨e, he, -, hsame | ⟨hp, hcont, hgain⟩⟩ := made_cases hx
    · cases hm
    · exact h.child he (hsame ▸ hm)
    · rw [hgain] at hm
      obtain heq | hm := Assoc.mem_of_mem_insert hm
      · rw [(Prod.mk.inj heq).1]
        exact hs.name hp he hcont
      · exact h.child he hm
  case list =>
    intro x xe l hx hxl
    obtain ⟨-, rfl⟩ | ⟨e, he, htrunk, -⟩ := made_cases hx
    · exact hl l hxl
    · exact h.list he (Element.content_of_trunk htrunk ▸ hxl)
  case root =>
    intro x xe hx hp
    obtain ⟨-, rfl⟩ | ⟨e, he, htrunk, -⟩ := made_cases hx
    · have hnone : spec.parent = none := hp
      show pathFor spec (t.parentPath spec) = "/"
      simp [pathFor, parentPath, hs.path hnone, hnone]
    · rw [Element.path_of_trunk htrunk]
      exact h.root he (Element.parent_of_trunk htrunk ▸ hp)

theorem Suits.congr {spec' : ElementSpec} (h : t.Suits spec) (hn : spec'.name = spec.name)
    (hp : spec'.parent = spec.parent) (hr : spec'.registerPath = spec.registerPath) :
    t.Suits spec' :=
  ⟨fun hpar => hn ▸ h.name (hp ▸ hpar), fun hnone => hr ▸ h.path (hp ▸ hnone)⟩

mutual

/-- Building from a schema with plain names keeps the names of a tree plain. -/
theorem named_build : ∀ (schema : Schema), schema.Named → ∀ {t : Tree} {spec : ElementSpec},
    Named t → t.Suits spec → (build schema spec).Ensures t (fun _ => Named) fun _ => Named
  | .leaf type default, _, t, spec, h, hs => by
    rw [build, ensures_ofExcept_bind]
    refine ⟨fun _ _ => ?_, fun _ _ => h⟩
    exact named_wrap h (hs.congr (by simp) (by simp) (by simp)) fun l hl => by cases hl
  | .leafList type default, _, t, spec, h, hs => by
    rw [build]
    exact named_wrap h (hs.congr (by simp) (by simp) (by simp)) fun l hl => by cases hl
  | .container children default, hn, t, spec, h, hs => by
    rw [Schema.Named] at hn
    rw [build]
    have hwrap : (wrap .container { withDefault spec default with isContainer := true }).Ensures t
        (fun _ => Named) fun _ => Named :=
      named_wrap h (hs.congr (by simp) (by simp) (by simp)) fun l hl => by cases hl
    refine hwrap.bind fun id t₁ h₁ => ?_
    refine Ensures.bind (I := fun _ => Named) ?_ fun _ _ h₂ => h₂
    rw [orRemove, ensures_tryCatch]
    refine ((named_populate children hn id spec.registers).keeps h₁).mono (fun _ _ h₂ => h₂)
      fun err t₂ h₂ => ?_
    exact ((named_of_shrinks (shrinks_removeSubtree id)).keeps h₂).bind fun _ _ h₃ => h₃
  | .list list default, hn, t, spec, h, hs => by
    rw [build]
    refine named_wrap h (hs.congr (by simp) (by simp) (by simp)) fun l hl => ?_
    obtain rfl := Content.list.inj hl
    exact Schema.named_list.1 hn

/-- Children get the names of the schema. -/
theorem named_populate : ∀ (children : List (Child Schema)), Schema.AllNamed children →
    ∀ (id : ElementId) (registers : Bool), Leads (Keeping Named) (populate id registers children)
  | [], _, id, registers => by
    rw [populate]
    exact leads_pure ()
  | ⟨name, case, node⟩ :: rest, hn, id, registers => by
    rw [Schema.AllNamed] at hn
    obtain ⟨hname, hnode, hrest⟩ := hn
    refine leads_keeping_iff.2 fun t h => ?_
    rw [populate]
    refine (named_build node hnode h ⟨fun _ _ _ => hname, fun hp => by cases hp⟩).bind
      fun child t₁ h₁ => ?_
    have hfield : Leads (Keeping Named) (update id (addField name case node.isLeaf child)) :=
      leads_update fun t e _ h => h.modifyElement fun e' he' =>
        ⟨rfl, rfl, rfl, fun l hl => h.list he' hl⟩
    exact (hfield.bind fun _ => named_populate rest hrest id registers).keeps h₁

end

/-! ## Editing -/

/-- Assigning and editing rename nothing. -/
theorem frameStable_named : FrameStable Named fun _ => True where
  plan := fun _ _ _ _ => trivial
  unset := fun {hook} _ => named_of_shrinks (shrinks_runUnset hook)
  same := fun hs h => h.shrinks hs.shrinks

/-- Adding and deleting entries rename nothing. -/
theorem entryStable_named : EntryStable Named fun _ => True where
  toAssignStable := frameStable_named.assignStable
  build := fun {t id e l path} h he hl => by
    refine rel_of_ensures (R := fun _ => Named)
      (named_build _ ?_ h ⟨fun hp hpe hc => ?_, fun hp => ?_⟩)
    · rw [Schema.Named]
      exact (h.list he hl).2
    · obtain rfl := Option.some.inj hp
      rw [Option.some.inj (he.symm.trans hpe)] at hl
      rw [hl] at hc
      cases hc
    · cases hp
  remove := fun id => named_of_shrinks (shrinks_removeSubtree id)
  members := fun {t id f} h hschema => by
    rw [updateList, on_update, element]
    cases he : t.element? id with
    | none => exact h
    | some e =>
      refine h.modifyElement fun e' he' => ?_
      obtain rfl : e = e' := Option.some.inj (he.symm.trans he')
      split
      · next l hl =>
        refine ⟨rfl, rfl, rfl, fun l' hl' => ?_⟩
        obtain rfl := Content.list.inj hl'
        rw [hschema e l he hl]
        exact h.list he hl
      · exact ⟨rfl, rfl, rfl, fun l' hl' => h.list he hl'⟩
  makeKeys := fun h => ⟨h.child, h.list, h.root⟩
  tell := fun _ h => ⟨h.child, h.list, h.root⟩

/-- All names are plain in every tree that a schema with plain names describes. -/
theorem named_of_grows {schema : Blueprint} (hn : schema.root.Named) (hroot : spec.parent = none)
    (hpath : spec.registerPath = none) (h : Grows schema spec t) : Named t := by
  refine h.keeps (fun t op ht hop => ?_) ?_
  · cases op with
    | setLeaf id raw => exact frameStable_named.assignStable.setLeaf id raw t ht
    | editItem id edit => exact frameStable_named.editItem id edit t ht
    | extend id raws => exact frameStable_named.extend id raws t ht
    | unset id => exact named_of_shrinks (shrinks_unset id) t ht
    | add id key => exact entryStable_named.add id key t ht
    | delete id key => exact entryStable_named.delete id key t ht
    | _ => exact hop.elim
  · refine rel_of_ensures (R := fun _ => Named) (x := instantiate schema spec) ?_
    have hsuits : (tell {} (.instantiating spec.name)).Suits spec :=
      ⟨fun hp => (by rw [hroot] at hp; cases hp), fun _ => hpath⟩
    have htold : Named (tell {} (.instantiating spec.name)) := entryStable_named.tell _ named_empty
    rw [instantiate, ensures_changing_bind]
    refine (named_build schema hn htold hsuits).bind fun id t₁ h₁ => ?_
    rw [ensures_reading_bind]
    refine ⟨fun _ _ => ?_, fun _ _ => h₁⟩
    rw [ensures_get_bind]
    refine ⟨fun e _ => ?_, fun _ => h₁⟩
    rw [ensures_changing_bind]
    exact entryStable_named.tell _ h₁

end Tree

end DataTree
