import DataTree.Proofs.Entries
import DataTree.Proofs.Mirror.Counting
import DataTree.Proofs.Session

/-!
# DataTree.Proofs.Path.Announced

Every element is registered at its own path, whatever choices there are and whatever
becomes of the items of leaf-lists.

`Echoes` relates a tree to a later one that has no new elements and where what is still
there is still registered wherever it was.  Everything but making an element goes along
this relation.
-/

namespace DataTree

open Edit

/-! ## Registrations of elements -/

namespace Registry

variable {r : Registry} {path other : String} {x : Target} {id : ElementId}

@[simp] theorem removal_register (r : Registry) (path : String) (x : Target) :
    (r.register path x).removal = r.removal := rfl

@[simp] theorem removal_unregisterTarget (r : Registry) (path : String) (x : Target) :
    (r.unregisterTarget path x).removal = r.removal := by
  unfold unregisterTarget unregisterFirst
  split
  · split
    · rfl
    · split <;> rfl
  · rfl

/-- An element stays registered if something else is dropped. -/
theorem mem_targetsAt_unregisterTarget (hr : r.removal = .single) (hx : x ≠ .element id)
    (h : .element id ∈ r.targetsAt other) :
    .element id ∈ (r.unregisterTarget path x).targetsAt other := by
  have hun : r.unregisterTarget path x = r.unregisterFirst path x := by rw [unregisterTarget, hr]
  rw [hun]
  by_cases hp : other = path
  · subst hp
    rw [targetsAt_unregisterFirst_self]
    refine (List.mem_eraseP_of_neg fun hsame => hx ?_).2 h
    cases x with
    | element x =>
      simp only [Target.same, beq_iff_eq] at hsame
      rw [hsame]
    | member owner v => simp [Target.same] at hsame
  · rwa [targetsAt_unregisterFirst_of_ne hp]

/-- What is registered is found by every query that its path answers. -/
theorem mem_lookup (h : x ∈ r.targetsAt path) {query : String} {caller : Option String}
    (ha : Path.answers (Path.resolve query.toList (caller.map String.toList))
      (Path.segments path.toList) = true) : x ∈ r.lookup query caller := by
  unfold targetsAt at h
  cases hg : Assoc.get? path r.entries with
  | none => simp [hg] at h
  | some targets =>
    rw [hg, Option.getD_some] at h
    refine List.mem_flatMap.2 ⟨(path, targets), Assoc.mem_of_get?_eq_some hg, ?_⟩
    simpa [ha] using h

end Registry

namespace Tree

variable {t t' : Tree} {id : ElementId} {e : Element}

/-! ## What is still there is still registered -/

/-- No element is new, and what is still there is registered wherever it was. -/
structure Echoes (t t' : Tree) : Prop where
  element : ∀ {id e'}, t'.element? id = some e' → ∃ e, t.element? id = some e ∧ e'.id = e.id ∧
    e'.path = e.path ∧ e'.registers = e.registers
  removal : t'.registry.removal = t.registry.removal
  targets : t.registry.removal = .single → ∀ {id}, (t'.element? id).isSome → ∀ {path},
    .element id ∈ t.registry.targetsAt path → .element id ∈ t'.registry.targetsAt path

instance : IsPreorder Tree Echoes where
  refl _ := ⟨fun h => ⟨_, h, rfl, rfl, rfl⟩, rfl, fun _ _ _ _ h => h⟩
  trans t₁ t₂ t₃ h h' :=
    { element := fun he => by
        obtain ⟨e₂, he₂, hid₂, hpath₂, hreg₂⟩ := h'.element he
        obtain ⟨e₁, he₁, hid₁, hpath₁, hreg₁⟩ := h.element he₂
        exact ⟨e₁, he₁, hid₂.trans hid₁, hpath₂.trans hpath₁, hreg₂.trans hreg₁⟩
      removal := h'.removal.trans h.removal
      targets := fun hr id hid path hm => by
        obtain ⟨e₃, he₃⟩ := Option.isSome_iff_exists.1 hid
        obtain ⟨e₂, he₂, -⟩ := h'.element he₃
        exact h'.targets (h.removal.trans hr) hid (h.targets hr (by rw [he₂]; rfl) hm) }

/-- A change of an element that keeps its identifier, path and flag keeps it registered. -/
theorem echoes_modifyElement {f : Element → Element} (h : ∀ e, t.element? id = some e →
    (f e).id = e.id ∧ (f e).path = e.path ∧ (f e).registers = e.registers) :
    t.Echoes (t.modifyElement id f) := by
  refine ⟨fun {x e'} he' => ?_, rfl, fun _ _ _ _ hm => hm⟩
  obtain ⟨e, he, ⟨rfl, rfl⟩ | ⟨-, rfl⟩⟩ := modifyElement_cases he'
  · exact ⟨e, he, h e he⟩
  · exact ⟨e', he, rfl, rfl, rfl⟩

/-- The same for any element. -/
theorem echoes_update {f : Element → Element}
    (h : ∀ e, (f e).id = e.id ∧ (f e).path = e.path ∧ (f e).registers = e.registers) :
    Leads Echoes (update id f) := leads_update fun _ _ _ => echoes_modifyElement fun e _ => h e

/-- A new content keeps an element registered. -/
theorem echoes_content (id : ElementId) (content : Content) :
    Leads Echoes (update id fun e => { e with content }) := echoes_update fun _ => ⟨rfl, rfl, rfl⟩

/-- Registrations stay where the slots and the registry do. -/
theorem echoes_of_slots (hs : t'.slots = t.slots) (hr : t'.registry = t.registry) : t.Echoes t' :=
  ⟨fun he => ⟨_, element?_congr hs _ ▸ he, rfl, rfl, rfl⟩, by rw [hr],
    fun _ _ _ _ hm => by rwa [hr]⟩

/-- Registering something adds a registration at most. -/
theorem echoes_register (t : Tree) (e : Element) (path : String) (x : Target) :
    t.Echoes (t.register e path x) := by
  refine ⟨fun he => ⟨_, element?_congr (slots_register t e path x) _ ▸ he, rfl, rfl, rfl⟩, ?_,
    fun _ _ _ _ hm => ?_⟩
  · unfold register
    split <;> rfl
  · unfold register
    split
    · exact Registry.mem_targetsAt_register_iff.2 (.inl hm)
    · exact hm

/-- Unregistering an item leaves elements registered. -/
theorem echoes_unregisterMember (t : Tree) (e : Element) (v : Value) :
    t.Echoes (t.unregisterMember e v) := by
  have hslots : (t.unregisterMember e v).slots = t.slots := slots_unregister t e _ _
  refine ⟨fun he => ⟨_, element?_congr hslots _ ▸ he, rfl, rfl, rfl⟩, ?_, fun hr _ _ _ hm => ?_⟩
  · unfold unregisterMember unregister
    split
    · exact Registry.removal_unregisterTarget _ _ _
    · rfl
  · unfold unregisterMember unregister
    split
    · exact Registry.mem_targetsAt_unregisterTarget hr (by simp) hm
    · exact hm

/-- So does unregistering several. -/
theorem echoes_foldl_unregisterMember (e : Element) (items : List Value) (t : Tree) :
    t.Echoes (items.foldl (fun t item => t.unregisterMember e item) t) := by
  induction items generalizing t with
  | nil => exact refl_of Echoes t
  | cons v items ih =>
    exact trans_of Echoes (echoes_unregisterMember t e v) (ih (t.unregisterMember e v))

/-- Dropping an element takes away no other element's registration. -/
theorem echoes_drop (t : Tree) (id : ElementId) : t.Echoes (t.drop id) := by
  cases he : t.element? id with
  | none =>
    rw [drop_of_none he]
    exact refl_of Echoes t
  | some e =>
    have hfold := echoes_foldl_unregisterMember e e.content.members (t.vacate id)
    have hdrop := drop_of_some he
    generalize e.content.members.foldl _ _ = t₁ at hfold hdrop
    have hslots : (t.drop id).slots = t₁.slots := by rw [hdrop, slots_unregister]
    refine ⟨fun hx => ⟨_, (element?_drop_eq_some_iff.1 hx).2, rfl, rfl, rfl⟩, ?_,
      fun hr {x} hx {path} hm => ?_⟩
    · rw [hdrop, registry_unregister]
      split
      · exact (Registry.removal_unregisterTarget _ _ _).trans hfold.removal
      · exact hfold.removal
    · obtain ⟨xe, hxe⟩ := Option.isSome_iff_exists.1 hx
      have hm₁ : .element x ∈ t₁.registry.targetsAt path :=
        hfold.targets hr (by rw [← element?_congr hslots, hxe]; rfl) hm
      rw [hdrop, registry_unregister]
      split
      · refine Registry.mem_targetsAt_unregisterTarget (hfold.removal.trans hr) ?_ hm₁
        exact fun heq => (element?_drop_eq_some_iff.1 hxe).1 (Target.element.inj heq).symm
      · exact hm₁

/-- Removing a subtree leaves the others registered. -/
theorem echoes_removeSubtree (id : ElementId) : Leads Echoes (removeSubtree id) := by
  unfold removeSubtree get
  refine (leads_reading _).bind fun doomed => (leads_reading _).bind fun e => ?_
  refine leads_changing fun t => ?_
  have hdetach : t.Echoes (t.detach e) := by
    unfold detach
    split
    · refine echoes_modifyElement fun p _ => ?_
      have hb := (p.shrinks_detach e.name e.id).bare
      exact ⟨Element.id_of_bare hb, Element.path_of_bare hb, Element.registers_of_bare hb⟩
    · exact refl_of Echoes t
  refine trans_of Echoes hdetach ?_
  generalize t.detach e = t'
  induction doomed generalizing t' with
  | nil => exact refl_of Echoes t'
  | cons id doomed ih => exact trans_of Echoes (echoes_drop t' id) (ih (t'.drop id))

/-! ## Edits that make no elements -/

/-- Unsetting leaves what stays registered. -/
theorem echoes_unset (id : ElementId) : Leads Echoes (unset id) := by
  refine (leads_reading _).bind fun _ => leads_forM fun id _ => ?_
  unfold clear get
  refine (leads_reading _).bind fun e => ?_
  split
  · exact (echoes_content id _).bind fun _ => leads_forM fun entry _ => echoes_removeSubtree entry
  · refine (leads_ofExcept _).bind fun r => ?_
    obtain ⟨removed, cleared⟩ := r
    exact (echoes_content id cleared).bind fun _ =>
      leads_changing fun t => echoes_foldl_unregisterMember e _ t

/-- So does a hook. -/
theorem echoes_runUnset (hook : Unset) : Leads Echoes (runUnset hook) := by
  cases hook with
  | contents id => exact echoes_unset id
  | subtree id => exact echoes_removeSubtree id

/-- A new value leaves its element registered. -/
theorem echoes_store (value : Option LeafValue) : Leads Echoes (update id (store value)) := by
  refine echoes_update fun e => ?_
  unfold store
  split <;> exact ⟨rfl, rfl, rfl⟩

theorem echoes_markChanged (ids : List ElementId) : Leads Echoes (markChanged ids) :=
  leads_forM fun _ _ => echoes_update fun _ => ⟨rfl, rfl, rfl⟩

/-- Carrying out a plan leaves what stays registered. -/
theorem echoes_commit (p : Plan) : Leads Echoes (commit p) :=
  (leads_forM fun hook _ => echoes_runUnset hook).bind fun _ => echoes_markChanged p.marks

/-- Registering an item leaves elements registered. -/
theorem echoes_registerMember (e : Element) (v : Value) :
    Leads Echoes (changing fun t => t.registerMember e v) :=
  leads_changing fun t => echoes_register t e _ _

/-- Editing items leaves what stays registered. -/
theorem echoes_editItem (id : ElementId) (op : ItemEdit) : Leads Echoes (editItem id op) := by
  unfold editItem get
  refine (leads_reading _).bind fun p => (leads_reading _).bind fun e =>
    (leads_ofExcept _).bind fun r => ?_
  obtain ⟨item, content⟩ := r
  refine (echoes_content id content).bind fun _ => (echoes_commit p).bind fun _ => ?_
  refine (leads_reading _).bind fun e => Leads.bind ?_ fun _ => leads_pure item
  refine leads_changing fun t => ?_
  split
  · exact echoes_register t e _ _
  · exact echoes_unregisterMember t e _

/-- So does adding in bulk. -/
theorem echoes_extend (id : ElementId) (raws : List Value) : Leads Echoes (extend id raws) := by
  unfold extend get
  refine (leads_reading _).bind fun p => (leads_reading _).bind fun e =>
    (leads_ofExcept _).bind fun r => ?_
  obtain ⟨items, content⟩ := r
  refine (echoes_content id content).bind fun _ => (echoes_commit p).bind fun _ => ?_
  refine Leads.bind (leads_forM fun item _ => ?_) fun _ => leads_pure items
  exact (leads_reading _).bind fun e => echoes_registerMember e item

/-! ## Announced elements -/

/-- Every element is registered at its path, and its registration is dropped only with it. -/
structure Announced (t : Tree) : Prop where
  removal : t.registry.removal = .single
  id_eq : ∀ {id e}, t.element? id = some e → e.id = id
  registers : ∀ {id e}, t.element? id = some e → e.registers = true
  listed : ∀ {id e}, t.element? id = some e → .element id ∈ t.registry.targetsAt e.path

theorem announced_empty : Announced {} := by
  have hnone : ∀ id, ({} : Tree).element? id = none := fun id => by simp [element?]
  constructor <;> simp [hnone]

/-- What is still there is registered at its path as before. -/
theorem Announced.echoes (h : Announced t) (he : t.Echoes t') : Announced t' where
  removal := he.removal.trans h.removal
  id_eq := fun hx => by
    obtain ⟨e, hex, hid, -⟩ := he.element hx
    exact hid.trans (h.id_eq hex)
  registers := fun hx => by
    obtain ⟨e, hex, -, -, hr⟩ := he.element hx
    exact hr.trans (h.registers hex)
  listed := fun hx => by
    obtain ⟨e, hex, -, hpath, -⟩ := he.element hx
    rw [hpath]
    exact he.targets h.removal (by rw [hx]; rfl) (h.listed hex)

/-- An edit that adds no element keeps all of them registered. -/
theorem announced_of_echoes {α : Type} {x : Edit α} (hx : Leads Echoes x) :
    Leads (Keeping Announced) x := fun t h => h.echoes (hx t)

/-- A registering element is registered when it is made. -/
theorem announced_wrap {content : Content} {spec : ElementSpec} (hr : spec.registers = true) :
    Leads (Keeping Announced) (wrap content spec) := by
  refine leads_wrap fun t _ h => ?_
  have hlink : Announced (t.link spec) := by
    refine h.echoes ?_
    unfold link
    split
    · refine echoes_modifyElement fun e _ => ?_
      unfold Element.gain
      split <;> exact ⟨rfl, rfl, rfl⟩
    · exact refl_of Echoes t
  let e := t.newElement content spec
  have hreg : e.registers = true := hr
  have hregistry : ((t.link spec).place e).registry
      = (t.link spec).registry.register e.path (.element ⟨t.slots.size⟩) := by
    rw [registry_place, registry_register, if_pos hreg]
    rfl
  constructor
  case removal =>
    rw [hregistry]
    exact hlink.removal
  case id_eq =>
    intro x xe hx
    obtain ⟨rfl, rfl⟩ | hx := place_cases hx
    · rw [size_slots_link]
      rfl
    · exact hlink.id_eq hx
  case registers =>
    intro x xe hx
    obtain ⟨-, rfl⟩ | hx := place_cases hx
    · exact hr
    · exact hlink.registers hx
  case listed =>
    intro x xe hx
    rw [hregistry, Registry.mem_targetsAt_register_iff]
    obtain ⟨rfl, rfl⟩ | hx := place_cases hx
    · exact .inr ⟨rfl, by rw [size_slots_link]⟩
    · exact .inl (hlink.listed hx)

/-- Building a schema registers every element that it makes. -/
theorem buildStable_announced :
    BuildStable (Keeping Announced) true (fun _ => True) fun _ => True where
  wrap := fun _ _ _ _ hr => announced_wrap hr
  field := fun _ => announced_of_echoes (echoes_update fun _ => ⟨rfl, rfl, rfl⟩)
  remove := fun id => announced_of_echoes (echoes_removeSubtree id)

theorem announced_build {schema : Schema} {spec : ElementSpec} (hr : spec.registers = true) :
    Leads (Keeping Announced) (build schema spec) :=
  buildStable_announced.build schema spec
    (schema.uses_of_forall (fun _ => trivial) fun _ => trivial) hr

/-- Adding and deleting entries keep all elements registered. -/
theorem entryStable_announced : EntryStable Announced fun _ => True where
  plan := fun _ _ _ _ => trivial
  unset := fun {hook} _ => announced_of_echoes (echoes_runUnset hook)
  store := fun _ value => announced_of_echoes (echoes_store value)
  mark := fun _ _ => announced_of_echoes (echoes_update fun _ => ⟨rfl, rfl, rfl⟩)
  build := fun h he _ => announced_build (h.registers he) _ h
  remove := fun id => announced_of_echoes (echoes_removeSubtree id)
  members := fun {t id f} h _ => by
    refine announced_of_echoes (echoes_update fun e => ?_) t h
    split <;> exact ⟨rfl, rfl, rfl⟩
  makeKeys := fun h => h.echoes (echoes_of_slots rfl rfl)
  tell := fun _ h => h.echoes (echoes_of_slots rfl rfl)

/-- Editing keeps every element announced, whether it succeeds or fails. -/
theorem announced_after {op : Operation} (h : Announced t) (hop : t.Editing op) :
    Announced (op.after t) := by
  have hentry := entryStable_announced
  cases op with
  | setLeaf id raw => exact hentry.setLeaf id raw t h
  | editItem id edit => exact announced_of_echoes (echoes_editItem id edit) t h
  | extend id raws => exact announced_of_echoes (echoes_extend id raws) t h
  | unset id => exact announced_of_echoes (echoes_unset id) t h
  | add id key => exact hentry.add id key t h
  | delete id key => exact hentry.delete id key t h
  | _ => exact hop.elim

/-- A tree that was made with a registry has all its elements in it. -/
theorem announced_of_grows {schema : Blueprint} {spec : ElementSpec} (hr : spec.registers = true)
    (h : Grows schema spec t) : Announced t := by
  refine h.keeps (fun _ _ ha hop => announced_after ha hop) ?_
  exact leads_instantiate entryStable_announced.tell (announced_build hr) {} announced_empty

end Tree

end DataTree
