import DataTree.Proofs.Structure.WellFormed
import DataTree.Proofs.Tracking.Raised

/-!
# DataTree.Proofs.Links.Owned

What holds of links in every session.

Elements may be made below anything, in the place of another one, or below a leaf that
lists nothing.  Whether an element lists what has it as its parent is therefore open.
But whatever it lists has it as its parent, if it is there at all (`Tree.Owned`), and the
elements are counted right (`Tree.Counted`).
-/

namespace DataTree.Tree

open Edit Outcome

variable {t t' : Tree} {id c p x : ElementId} {e : Element}

/-! ## The count of elements -/

/-- The number of elements is right. -/
def Counted (t : Tree) : Prop := t.live = t.ids.length

/-- The number stays right where it and the elements that are there stay. -/
theorem Counted.of_isSome (h : t.Counted) (hl : t'.live = t.live)
    (hs : ∀ x, (t'.element? x).isSome = (t.element? x).isSome) : t'.Counted := by
  rw [Counted, hl, h, length_ids_congr hs]

/-- The number is that of the slots. -/
theorem Counted.of_slots (h : t.Counted) (hl : t'.live = t.live) (hs : t'.slots = t.slots) :
    t'.Counted :=
  h.of_isSome hl fun x => by rw [element?_congr hs]

/-- Changing an element makes none and removes none. -/
theorem counted_update (id : ElementId) (f : Element → Element) :
    Leads (Keeping Counted) (update id f) :=
  leads_update fun t _ _ h => h.of_isSome rfl fun x => isSome_element?_modifyElement t id f x

/-- Removing a subtree counts off what it removes. -/
theorem counted_removeSubtree (id : ElementId) : Leads (Keeping Counted) (removeSubtree id) := by
  unfold removeSubtree get
  refine (leads_reading _).bind fun doomed =>
    (leads_reading _).bind fun e => leads_changing fun t h => ?_
  have hdetach : (t.detach e).Counted := h.of_isSome (live_detach t e) fun x => by
    rw [element?_detach]
    split <;> simp
  exact (foldl_drop doomed (t.detach e)).2.2.2 hdetach

/-- Clearing counts off the entries that it removes. -/
theorem counted_clear (id : ElementId) : Leads (Keeping Counted) (clear id) := by
  unfold clear get
  refine (leads_reading _).bind fun e => ?_
  split
  · exact (counted_update _ _).bind fun _ => leads_forM fun entry _ => counted_removeSubtree entry
  · refine (leads_ofExcept _).bind fun r =>
      (counted_update _ _).bind fun _ => leads_changing fun t h => ?_
    obtain ⟨hs, hl, -⟩ := foldl_unregisterMember e e.content.members t
    exact h.of_slots hl hs

/-- A hook counts off what it removes. -/
theorem counted_runUnset (hook : Unset) : Leads (Keeping Counted) (runUnset hook) := by
  cases hook with
  | contents id =>
    exact (leads_reading _).bind fun _ => leads_forM fun holder _ => counted_clear holder
  | subtree id => exact counted_removeSubtree id

/-- Assigning and editing keep the number right. -/
theorem frameStable_counted : FrameStable Counted fun _ => True where
  plan := fun _ _ _ _ => trivial
  unset := fun {hook} _ => counted_runUnset hook
  same := fun hs h => h.of_isSome hs.live hs.isSome

/-- Making an element counts it. -/
theorem counted_wrap (content : Content) (spec : ElementSpec) :
    Leads (Keeping Counted) (wrap content spec) := by
  refine leads_wrap fun t _ h => ?_
  have hlink : (t.link spec).Counted := h.of_isSome (live_link t spec) fun x => by
    rw [element?_link]
    split <;> simp
  have hnew : (t.link spec).element? ⟨t.slots.size⟩ = none :=
    element?_eq_none_of_size_le (by simp)
  have hcount : (t.link spec).live = (t.link spec).ids.length := hlink
  have hone := length_ids_of_added hnew fun x => by
    rw [← size_slots_link t spec]
    exact (t.link spec).element?_place (t.newElement content spec) x
  rw [Counted, live_place, hcount, hone]

/-- Building a schema counts every element that it makes. -/
theorem buildStable_counted (registers : Bool) :
    BuildStable (Keeping Counted) registers (fun _ => True) fun _ => True where
  wrap := fun content spec _ _ _ => counted_wrap content spec
  field := fun _ => counted_update _ _
  remove := counted_removeSubtree

theorem counted_build (schema : Schema) (spec : ElementSpec) :
    Leads (Keeping Counted) (build schema spec) :=
  (buildStable_counted spec.registers).build schema spec
    (schema.uses_of_forall (fun _ => trivial) fun _ => trivial) rfl

/-- Adding and deleting entries keep the number right. -/
theorem entryStable_counted : EntryStable Counted fun _ => True where
  toAssignStable := frameStable_counted.assignStable
  build := fun h _ _ => counted_build _ _ _ h
  remove := counted_removeSubtree
  members := fun h _ => counted_update _ _ _ h
  makeKeys := fun h => h.of_slots rfl rfl
  tell := fun _ h => h.of_slots rfl rfl

/-- The number of elements is right after every operation. -/
theorem counted_after (op : Operation) (h : t.Counted) : (op.after t).Counted := by
  cases op with
  | wrap content spec => exact counted_wrap content spec t h
  | instantiate schema spec =>
    exact leads_instantiate (I := Counted) entryStable_counted.tell (counted_build schema spec) t h
  | _ => exact entryStable_counted.handling frameStable_counted trivial h

/-! ## What is listed -/

/-- Elements know their slots and are younger than their parents.  What an element lists was in
the tree once, and has this element as its parent if it still is. -/
structure Owned (t : Tree) : Prop where
  id_eq : ∀ {id e}, t.element? id = some e → e.id = id
  parent_lt : ∀ {id e p}, t.element? id = some e → e.parent = some p → p.index < id.index
  known : ∀ {p c}, t.Above p c → c.index < t.slots.size
  owned : ∀ {p c ce}, t.Above p c → t.element? c = some ce → ce.parent = some p

theorem owned_empty : Owned {} := by
  have hnone : ∀ id, ({} : Tree).element? id = none := fun id => by simp [element?]
  constructor <;> simp [hnone, Above]

/-- Every element has come from one with the same parent, and what it lists beyond that has it
as its parent. -/
theorem Owned.of_back (h : t.Owned) (hsize : t'.slots.size = t.slots.size)
    (hback : ∀ {x e'}, t'.element? x = some e' →
      ∃ e, t.element? x = some e ∧ e'.id = e.id ∧ e'.parent = e.parent ∧
        ∀ c ∈ e'.below, c ∈ e.below ∨
          c.index < t.slots.size ∧ ∀ ce, t.element? c = some ce → ce.parent = some x) :
    t'.Owned := by
  constructor
  case id_eq =>
    intro x e' he'
    obtain ⟨e, he, hid, -⟩ := hback he'
    rw [hid, h.id_eq he]
  case parent_lt =>
    intro x e' p he' hp
    obtain ⟨e, he, -, hpar, -⟩ := hback he'
    exact h.parent_lt he (hpar ▸ hp)
  case known =>
    intro p c ha
    obtain ⟨e', he', hc⟩ := ha
    obtain ⟨e, he, -, -, hbelow⟩ := hback he'
    rw [hsize]
    exact (hbelow c hc).elim (fun hc => h.known ⟨e, he, hc⟩) And.left
  case owned =>
    intro p c ce' ha hce'
    obtain ⟨e', he', hc⟩ := ha
    obtain ⟨e, he, -, -, hbelow⟩ := hback he'
    obtain ⟨ce, hce, -, hpar, -⟩ := hback hce'
    rw [hpar]
    exact (hbelow c hc).elim (fun hc => h.owned ⟨e, he, hc⟩ hce) fun hnew => hnew.2 ce hce

/-- Elements and links may go. -/
theorem Owned.shrinks (h : t.Owned) (hs : t.Shrinks t') : t'.Owned := by
  refine h.of_back hs.size fun {x e'} he' => ?_
  obtain ⟨e, he, hse⟩ := hs.element he'
  refine ⟨e, he, Element.id_of_bare hse.bare, Element.parent_of_bare hse.bare, fun c hc => .inl ?_⟩
  rw [Element.below_eq] at hc ⊢
  exact (List.mem_append.1 hc).elim
    (fun hc => List.mem_append_left _ ((hse.children.map Prod.snd).subset hc))
    fun hc => List.mem_append_right _ (List.map_subset Prod.snd hse.links.subset hc)

/-- An edit that only takes something away leaves no element with something foreign below it. -/
theorem owned_of_shrinks {α : Type} {x : Edit α} (h : Leads Shrinks x) : Leads (Keeping Owned) x :=
  fun t ht => ht.shrinks (h t)

/-- Links are in the slots alone. -/
theorem Owned.of_slots (h : t.Owned) (hs : t'.slots = t.slots) : t'.Owned :=
  h.of_back (by rw [hs]) fun he' =>
    ⟨_, element?_congr hs _ ▸ he', rfl, rfl, fun _ hc => .inl hc⟩

/-- An element may get what lies below it already, or what has it as its parent. -/
theorem Owned.modifyElement (h : t.Owned) {f : Element → Element}
    (hf : ∀ e, t.element? id = some e → (f e).id = e.id ∧ (f e).parent = e.parent ∧
      ∀ c ∈ (f e).below, c ∈ e.below ∨
        c.index < t.slots.size ∧ ∀ ce, t.element? c = some ce → ce.parent = some id) :
    (t.modifyElement id f).Owned := by
  refine h.of_back (by simp) fun {x e'} he' => ?_
  obtain ⟨e, he, ⟨rfl, rfl⟩ | ⟨-, rfl⟩⟩ := modifyElement_cases he'
  · exact ⟨e, he, hf e he⟩
  · exact ⟨e', he, rfl, rfl, fun _ hc => .inl hc⟩

/-! ## Making elements -/

/-- The links of an element that was just made, and of the others. -/
theorem above_made {content : Content} {spec : ElementSpec} (hlinks : content.links = [])
    (ha : (t.made content spec).Above p c) :
    t.Above p c ∨ c = ⟨t.slots.size⟩ ∧ spec.parent = some p := by
  obtain ⟨e', he', hc⟩ := ha
  rw [Element.below_eq] at hc
  obtain ⟨rfl, rfl⟩ | ⟨e, he, htrunk, hchildren⟩ := made_cases he'
  · have hnil : (t.newElement content spec).content.links = [] := hlinks
    rw [hnil] at hc
    cases hc
  · rw [Element.content_of_trunk htrunk] at hc
    obtain hsame | ⟨hp, -, hinsert⟩ := hchildren
    · rw [hsame] at hc
      exact .inl ⟨e, he, Element.below_eq e ▸ hc⟩
    · obtain hc | hc := List.mem_append.1 hc
      · obtain ⟨⟨name, c⟩, hm, rfl⟩ := List.mem_map.1 hc
        rw [hinsert] at hm
        obtain heq | hm := Assoc.mem_of_mem_insert hm
        · exact .inr ⟨(Prod.mk.inj heq).2, hp⟩
        · exact .inl ⟨e, he, Element.mem_below_of_child hm⟩
      · exact .inl ⟨e, he, Element.below_eq e ▸ List.mem_append_right _ hc⟩

/-- An element without links of its own is made with its parent pointing at it. -/
theorem owned_wrap {content : Content} (hlinks : content.links = []) (spec : ElementSpec) :
    Leads (Keeping Owned) (wrap content spec) := by
  refine leads_wrap fun t hparent h => ?_
  show (t.made content spec).Owned
  have hsize : (t.made content spec).slots.size = t.slots.size + 1 := by simp [made]
  constructor
  case id_eq =>
    intro x e' he'
    obtain ⟨rfl, rfl⟩ | ⟨e, he, htrunk, -⟩ := made_cases he'
    · rfl
    · rw [Element.id_of_trunk htrunk, h.id_eq he]
  case parent_lt =>
    intro x e' p he' hp
    obtain ⟨rfl, rfl⟩ | ⟨e, he, htrunk, -⟩ := made_cases he'
    · obtain ⟨pe, hpe⟩ := hparent p hp
      exact index_lt_of_element? hpe
    · exact h.parent_lt he (Element.parent_of_trunk htrunk ▸ hp)
  case known =>
    intro p c ha
    rw [hsize]
    obtain ha | ⟨rfl, -⟩ := above_made hlinks ha
    · exact Nat.lt_succ_of_lt (h.known ha)
    · exact Nat.lt_succ_self _
  case owned =>
    intro p c ce' ha hce'
    obtain ⟨rfl, rfl⟩ | ⟨ce, hce, htrunk, -⟩ := made_cases hce'
    · obtain ha | ⟨-, hp⟩ := above_made hlinks ha
      · exact absurd (h.known ha) (Nat.lt_irrefl _)
      · exact hp
    · rw [Element.parent_of_trunk htrunk]
      obtain ha | ⟨rfl, -⟩ := above_made hlinks ha
      · exact h.owned ha hce
      · exact absurd (index_lt_of_element? hce) (Nat.lt_irrefl _)

/-- A new field changes no link. -/
theorem owned_addField (name : String) (case : Option Case) (isLeaf : Bool) (child : ElementId) :
    Leads (Keeping Owned) (update id (addField name case isLeaf child)) :=
  leads_update fun _ _ _ h => h.modifyElement fun _ _ => ⟨rfl, rfl, fun _ hc => .inl hc⟩

/-- A content without data has no links. -/
theorem Content.IsInitial.links {content : Content} (h : content.IsInitial) :
    content.links = [] := by
  cases content with
  | list l => exact h
  | _ => rfl

/-- Building a schema links each element from its parent. -/
theorem buildStable_owned (registers : Bool) :
    BuildStable (Keeping Owned) registers (fun _ => True) fun _ => True where
  wrap := fun _ spec hinitial _ _ => owned_wrap (Content.IsInitial.links hinitial) spec
  field := fun _ => owned_addField _ _ _ _
  remove := fun id => owned_of_shrinks (shrinks_removeSubtree id)

theorem owned_build (schema : Schema) (spec : ElementSpec) :
    Leads (Keeping Owned) (build schema spec) :=
  (buildStable_owned spec.registers).build schema spec
    (schema.uses_of_forall (fun _ => trivial) fun _ => trivial) rfl

/-! ## Entries -/

theorem relist_eq (f : KeyedList → KeyedList) (e : Element) :
    (relist f e).id = e.id ∧ (relist f e).parent = e.parent := by
  unfold relist
  split <;> exact ⟨rfl, rfl⟩

/-- What a list has below it that it did not have before is new among its entries. -/
theorem mem_below_relist {f : KeyedList → KeyedList} (h : c ∈ (relist f e).below) :
    c ∈ e.below ∨ ∃ l key, e.content = .list l ∧ (key, c) ∈ (f l).members := by
  unfold relist at h
  split at h
  · next l hl =>
    obtain ⟨name, hm⟩ | ⟨l', key, hl', hm⟩ := Element.mem_below h
    · exact .inl (Element.mem_below_of_child hm)
    · obtain rfl := Content.list.inj hl'
      exact .inr ⟨l, key, hl, hm⟩
  · exact .inl h

/-- An entry that has the list as its parent goes into the list. -/
theorem Owned.enlisted (h : t.Owned) (l : KeyedList) (key : String) {entry : ElementId}
    (hentry : entry.index < t.slots.size)
    (hparent : ∀ ce, t.element? entry = some ce → ce.parent = some id) :
    (t.enlisted id l key entry).Owned := by
  have hinsert : (t.modifyElement id (relist (·.insert key entry))).Owned := by
    refine h.modifyElement fun e _ => ⟨(relist_eq _ e).1, (relist_eq _ e).2, fun c hc => ?_⟩
    obtain hc | ⟨l', key', hl', hm⟩ := mem_below_relist hc
    · exact .inl hc
    · obtain heq | hm := Assoc.mem_of_mem_insert hm
      · obtain rfl := (Prod.mk.inj heq).2
        exact .inr ⟨hentry, hparent⟩
      · exact .inl (Element.mem_below_of_entry hl' hm)
  unfold Tree.enlisted
  split
  · exact hinsert.of_slots rfl
  · exact hinsert

/-- Adding an entry links it from its list. -/
theorem owned_add (id : ElementId) (key : Option String) : Leads (Keeping Owned) (add id key) := by
  refine leads_add (fun event h => h.of_slots rfl) (leads_keeping_iff.2 fun t h =>
    ensures_addEntry (fun _ => h) fun {p e l key' parts path} _ _ _ _ => ?_)
  refine (((owned_build _ _).keeps h).and (raised_build _ (entrySpec id e path) t)).mono
    (fun entry t₁ h₁ => ?_) fun _ _ h₁ => h₁.1
  obtain ⟨h₁, hraised⟩ := h₁
  refine ⟨fun _ _ => h₁, fun before _ => ?_⟩
  refine ((shrinks_tryAssignKey entry _ before).ensures t₁).mono
    (fun _ t₂ hs => ⟨fun _ => h₁.shrinks hs, fun _ _ => ?_⟩) fun _ _ hs => h₁.shrinks hs
  have hlisted : (t₂.enlisted id l key' entry).Owned := by
    obtain ⟨ce, hce, hpar, -⟩ := hraised.element
    refine (h₁.shrinks hs).enlisted l key' (hs.size ▸ index_lt_of_element? hce) fun ce' hce' => ?_
    obtain ⟨ce₁, hce₁, hse⟩ := hs.element hce'
    obtain rfl : ce = ce₁ := Option.some.inj (hce.symm.trans hce₁)
    rw [Element.parent_of_bare hse.bare, hpar]
    rfl
  exact (owned_of_shrinks (shrinks_commit p)).keeps hlisted

/-- Deleting an entry only removes links. -/
theorem owned_delete (id : ElementId) (key : String) : Leads (Keeping Owned) (delete id key) := by
  refine leads_keeping_iff.2 fun t h => ensures_delete (fun _ => h) fun {e} he => ?_
  have htold : (t.tell (.deleting e.path key)).Owned := h.of_slots rfl
  refine ⟨fun _ => htold, fun {p l entry rest} _ hl htake => ?_⟩
  have hsub : ∀ m ∈ rest.members, m ∈ l.members := by
    obtain ⟨_, -, htake⟩ := Option.map_eq_some_iff.1 htake
    obtain ⟨-, rfl⟩ := Prod.mk.inj htake
    intro m hm
    dsimp only at hm
    split at hm
    · exact (Assoc.mem_erase_iff.1 hm).1
    · exact Assoc.mem_of_mem_swapErase hm
  have htaken : ((t.tell (.deleting e.path key)).withList id rest).Owned := by
    refine htold.modifyElement fun e' he' =>
      ⟨(relist_eq _ e').1, (relist_eq _ e').2, fun c hc => .inl ?_⟩
    obtain hc | ⟨l', key', hl', hm⟩ := mem_below_relist hc
    · exact hc
    · obtain rfl : e = e' := Option.some.inj (he.symm.trans he')
      obtain rfl := Content.list.inj (hl.symm.trans hl')
      exact Element.mem_below_of_entry hl (hsub _ hm)
  refine ((owned_of_shrinks (shrinks_removeSubtree entry)).keeps htaken).mono (fun _ t₂ h₂ => ?_)
    fun _ _ h => h
  exact ((owned_of_shrinks (shrinks_commit p)).keeps h₂).mono
    (fun _ _ h => h.of_slots rfl) fun _ _ h => h

/-! ## Sessions -/

/-- What makes an invariant one of all these operations: losing elements and links does it no
harm, and making elements and adding and deleting entries keep it. -/
structure LinkStable (I : Tree → Prop) : Prop where
  shrinks : ∀ {t t'}, I t → t.Shrinks t' → I t'
  wrap : ∀ {content}, content.links = [] → ∀ spec, Leads (Keeping I) (wrap content spec)
  build : ∀ schema spec, Leads (Keeping I) (build schema spec)
  add : ∀ id key, Leads (Keeping I) (add id key)
  delete : ∀ id key, Leads (Keeping I) (delete id key)

/-- An invariant that is kept by making, adding, deleting and losing is kept by every operation. -/
theorem LinkStable.after {I : Tree → Prop} (hI : LinkStable I) (op : Operation) (h : I t) :
    I (op.after t) := by
  have hframe := frameStable_shrinks t
  have hrefl := refl_of Shrinks t
  cases op with
  | wrap content spec fresh => exact hI.wrap fresh.links spec t h
  | instantiate schema spec =>
    exact leads_instantiate (fun event h => hI.shrinks h (sameFrame_tell _ event).shrinks)
      (hI.build schema spec) t h
  | set id active => exact hI.shrinks h (hframe.assignStable.set id active t hrefl)
  | setLeaf id raw => exact hI.shrinks h (shrinks_setLeaf id raw t)
  | editItem id edit => exact hI.shrinks h (hframe.editItem id edit t hrefl)
  | extend id raws => exact hI.shrinks h (hframe.extend id raws t hrefl)
  | unset id => exact hI.shrinks h (shrinks_unset id t)
  | removeSubtree id => exact hI.shrinks h (shrinks_removeSubtree id t)
  | add id key => exact hI.add id key t h
  | delete id key => exact hI.delete id key t h

/-- Owning what is listed is such an invariant. -/
theorem linkStable_owned : LinkStable Owned where
  shrinks := Owned.shrinks
  wrap := owned_wrap
  build := owned_build
  add := owned_add
  delete := owned_delete

/-- Links and the number of elements are in order in every session. -/
theorem owned_of_reaches (h : Reaches Unrestricted {} t) : t.Owned ∧ t.Counted :=
  h.keeps (I := fun t => t.Owned ∧ t.Counted)
    (fun _ op h _ => ⟨linkStable_owned.after op h.1, counted_after op h.2⟩) ⟨owned_empty, rfl⟩

end DataTree.Tree
