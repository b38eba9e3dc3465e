import DataTree.Proofs.Rollback.Registry
import DataTree.Proofs.Structure.Lists

/-!
# DataTree.Proofs.Rollback.Accounts

What is registered on behalf of new elements.

While an entry is built and its key is assigned, each of its elements is registered at its
path, at most once, and nothing else is registered for it.  `t.Accounts n` says so of all
elements from slot `n` on.  So when they are gone again, no registration is left of them
(`Accounts.before_registry`).

In between operations there are no new elements: then it says only that the owners of all
registrations have been there (`accounts_of_reaches`).
-/

namespace DataTree.Tree

open Edit

variable {t t' : Tree} {id : ElementId} {e : Element} {n : Nat}

/-- The elements in slots from `n` on are registered once at their paths, or not at all, and
no one is registered for a slot that was never taken. -/
structure Accounts (t : Tree) (n : Nat) : Prop where
  tidy : t.registry.Tidy
  id_eq : ∀ {id e}, t.element? id = some e → e.id = id
  size_le : n ≤ t.slots.size
  known : ∀ {path x}, x ∈ t.registry.targetsAt path → x.owner.index < t.slots.size
  late : ∀ {path id}, n ≤ id.index → t.registry.ownedAt path id = [] ∨
    t.registry.ownedAt path id = [.element id] ∧
      ∃ e, t.element? id = some e ∧ e.path = path ∧ e.registers = true

/-- Nothing is registered in the empty tree. -/
theorem accounts_empty : Accounts {} 0 where
  tidy := Registry.tidy_empty
  id_eq := fun h => by simp [element?] at h
  size_le := Nat.le_refl _
  known := fun hx => by cases hx
  late := fun _ => .inl rfl

/-- The elements behind all others are not there, so there is nothing to say about them. -/
theorem Accounts.of_size (h : t.Accounts n) : t.Accounts t.slots.size where
  tidy := h.tidy
  id_eq := h.id_eq
  size_le := Nat.le_refl _
  known := h.known
  late := fun {path id} hid => by
    refine .inl (List.eq_nil_iff_forall_not_mem.2 fun x hx => ?_)
    obtain ⟨hx, hown⟩ := Registry.mem_ownedAt.1 hx
    exact absurd (h.known hx) (Nat.not_lt.2 (hown ▸ hid))

/-- Without elements from slot `n` on there are no registrations of such elements. -/
theorem Accounts.before_registry (h : t.Accounts n)
    (hnone : ∀ id, n ≤ id.index → t.element? id = none) : t.registry.before n = t.registry := by
  refine h.tidy.before_eq_self fun path x hx => ?_
  by_contra hlate
  obtain hnil | ⟨-, e, he, -⟩ := @Accounts.late _ _ h path _ (Nat.not_lt.1 hlate)
  · have hmem := Registry.mem_ownedAt.2 ⟨hx, rfl⟩
    rw [hnil] at hmem
    cases hmem
  · rw [hnone _ (Nat.not_lt.1 hlate)] at he
    cases he

/-! ## Changing elements -/

/-- Accounts concern ids, paths and whether elements are registered. -/
theorem Accounts.congr (h : t.Accounts n) (hr : t'.registry = t.registry)
    (hs : t.slots.size ≤ t'.slots.size) (back : ∀ {id e'}, t'.element? id = some e' → e'.id = id)
    (forth : ∀ {id e}, t.element? id = some e → ∃ e', t'.element? id = some e' ∧ e'.path = e.path ∧
      e'.registers = e.registers) : t'.Accounts n where
  tidy := hr ▸ h.tidy
  id_eq := back
  size_le := Nat.le_trans h.size_le hs
  known := fun hx => Nat.lt_of_lt_of_le (h.known (hr ▸ hx)) hs
  late := fun {path id} hid => by
    rw [hr]
    refine (h.late hid).imp_right fun hone => ⟨hone.1, ?_⟩
    obtain ⟨-, e, he, hpath, hreg⟩ := hone
    obtain ⟨e', he', hpath', hreg'⟩ := forth he
    exact ⟨e', he', hpath'.trans hpath, hreg'.trans hreg⟩

/-- The accounts are those of the slots and of the registry. -/
theorem Accounts.of_slots (h : t.Accounts n) (hs : t'.slots = t.slots)
    (hr : t'.registry = t.registry) : t'.Accounts n :=
  h.congr hr (by rw [hs]) (fun he => h.id_eq (element?_congr hs _ ▸ he))
    fun he => ⟨_, element?_congr hs _ ▸ he, rfl, rfl⟩

/-- A change of an element that keeps its identifier, path and flag keeps the accounts. -/
theorem Accounts.modifyElement {f : Element → Element} (h : t.Accounts n)
    (hf : ∀ e, t.element? id = some e →
      (f e).id = e.id ∧ (f e).path = e.path ∧ (f e).registers = e.registers) :
    (t.modifyElement id f).Accounts n := by
  refine h.congr rfl (by simp) (fun {x e'} he' => ?_) fun {x e} he => ?_
  · obtain ⟨e, he, ⟨rfl, rfl⟩ | ⟨-, rfl⟩⟩ := modifyElement_cases he'
    · rw [(hf e he).1, h.id_eq he]
    · exact h.id_eq he
  · rw [element?_modifyElement]
    split
    · next hx => exact ⟨f e, by rw [he, Option.map_some], (hf e (hx ▸ he)).2⟩
    · exact ⟨e, he, rfl, rfl⟩

/-- The same for any element. -/
theorem accounts_update {f : Element → Element}
    (h : ∀ e, (f e).id = e.id ∧ (f e).path = e.path ∧ (f e).registers = e.registers) :
    Leads (Keeping (Accounts · n)) (update id f) :=
  leads_update fun _ _ _ ha => ha.modifyElement fun e _ => h e

/-! ## Dropping registrations -/

section

variable {path other : String} {x y : Target}

/-- Unregistering keeps the registry tidy. -/
theorem tidy_unregister (h : t.registry.Tidy) (e : Element) (path : String) (x : Target) :
    (t.unregister e path x).registry.Tidy := by
  rw [registry_unregister]
  split
  · exact h.unregister _ _
  · exact h

/-- Nothing is registered by unregistering. -/
theorem mem_of_mem_unregister (h : t.registry.Tidy)
    (hy : y ∈ (t.unregister e path x).registry.targetsAt other) :
    y ∈ t.registry.targetsAt other := by
  rw [registry_unregister] at hy
  split at hy
  · exact h.mem_of_mem_unregister hy
  · exact hy

/-- Unregistering for one owner changes nothing for another. -/
theorem ownedAt_unregister_of_owner (h : t.registry.Tidy) (hx : x.owner ≠ id) :
    (t.unregister e path x).registry.ownedAt other id = t.registry.ownedAt other id := by
  rw [registry_unregister]
  split
  · exact Registry.ownedAt_unregister_of_ne h hx
  · rfl

end

/-- The registration of an element is the only one on behalf of a late one. -/
theorem Accounts.ownedAt_unregister_element (h : t.Accounts n) (he : t.element? id = some e)
    (hid : n ≤ id.index) (path : String) :
    (t.unregister e e.path (.element id)).registry.ownedAt path id = [] := by
  have hlate := @Accounts.late _ _ h path _ hid
  rw [registry_unregister]
  by_cases hp : path = e.path
  · subst hp
    have hself : (t.registry.unregisterTarget e.path (.element id)).ownedAt e.path id
        = (t.registry.ownedAt e.path id).eraseP (·.same (.element id)) :=
      Registry.ownedAt_unregister_self h.tidy rfl
    obtain hnil | ⟨hone, e', he', -, hregs⟩ := hlate
    · split
      · rw [hself, hnil, List.eraseP_nil]
      · exact hnil
    · obtain rfl : e = e' := Option.some.inj (he.symm.trans he')
      rw [if_pos hregs, hself, hone, List.eraseP_cons_of_pos (by simp [Target.same])]
  · have hnil : t.registry.ownedAt path id = [] := by
      refine hlate.resolve_right fun hone => ?_
      obtain ⟨-, e', he', hpath, -⟩ := hone
      obtain rfl : e = e' := Option.some.inj (he.symm.trans he')
      exact hp hpath.symm
    split
    · rw [Registry.ownedAt_unregister_of_path h.tidy hp, hnil]
    · exact hnil

/-- Dropping the registration of an item leaves those of late elements. -/
theorem Accounts.ownedAt_unregister_member (h : t.Accounts n) (hid : n ≤ id.index) (e : Element)
    (v : Value) (path other : String) :
    (t.unregister e other (.member e.id v)).registry.ownedAt path id =
      t.registry.ownedAt path id := by
  by_cases hown : e.id = id
  · rw [registry_unregister]
    split
    · by_cases hp : path = other
      · subst hp
        rw [Registry.ownedAt_unregister_self h.tidy
          (show (Target.member e.id v).owner = id from hown)]
        obtain hnil | ⟨hone, -⟩ := @Accounts.late _ _ h path _ hid
        · rw [hnil, List.eraseP_nil]
        · rw [hone, List.eraseP_cons_of_neg (by simp [Target.same]), List.eraseP_nil]
      · exact Registry.ownedAt_unregister_of_path h.tidy hp
    · rfl
  · exact ownedAt_unregister_of_owner h.tidy hown

/-- Unregistering an item keeps the accounts. -/
theorem Accounts.unregisterMember (h : t.Accounts n) (e : Element) (v : Value) :
    (t.unregisterMember e v).Accounts n := by
  have hslots := slots_unregister t e (e.memberPath v) (.member e.id v)
  exact
    { tidy := tidy_unregister h.tidy e _ _
      id_eq := fun he => h.id_eq (element?_congr hslots _ ▸ he)
      size_le := hslots ▸ h.size_le
      known := fun hx => hslots ▸ h.known (mem_of_mem_unregister h.tidy hx)
      late := fun {path id} hid => by
        rw [Tree.unregisterMember, h.ownedAt_unregister_member hid, element?_congr hslots]
        exact h.late hid }

/-- So does unregistering several. -/
theorem Accounts.unregisterMembers (h : t.Accounts n) (e : Element) (items : List Value) :
    (items.foldl (fun t v => t.unregisterMember e v) t).Accounts n := by
  induction items generalizing t with
  | nil => exact h
  | cons v items ih => exact ih (h.unregisterMember e v)

/-- Dropping registrations does not depend on the elements. -/
theorem registry_foldl_unregisterMember (e : Element) (items : List Value)
    (hr : t'.registry = t.registry) :
    (items.foldl (fun t v => t.unregisterMember e v) t').registry
      = (items.foldl (fun t v => t.unregisterMember e v) t).registry := by
  induction items generalizing t t' with
  | nil => exact hr
  | cons v items ih =>
    refine ih ?_
    simp only [Tree.unregisterMember, registry_unregister, hr]

/-- An element takes its registration with it. -/
theorem Accounts.drop (h : t.Accounts n) (id : ElementId) : (t.drop id).Accounts n := by
  cases he : t.element? id with
  | none =>
    rw [drop_of_none he]
    exact h
  | some e =>
    have hmembers := h.unregisterMembers e e.content.members
    have hslots := (foldl_unregisterMember e e.content.members t).1
    have hfold := registry_foldl_unregisterMember e e.content.members (t.registry_vacate id)
    generalize e.content.members.foldl (fun t v => t.unregisterMember e v) t =
      t₁ at hmembers hslots hfold
    -- what is left of the registry does not depend on when the slot was emptied
    have hreg : (t.drop id).registry = (t₁.unregister e e.path (.element id)).registry := by
      rw [registry_drop he, registry_unregister, hfold]
    have he₁ : t₁.element? id = some e := by rw [element?_congr hslots, he]
    have hsize : (t.drop id).slots.size = t₁.slots.size := by rw [hslots, size_slots_drop]
    exact
      { tidy := hreg ▸ tidy_unregister hmembers.tidy e _ _
        id_eq := fun hx => h.id_eq (element?_drop_eq_some_iff.1 hx).2
        size_le := hsize ▸ hmembers.size_le
        known := fun hx => hsize ▸ hmembers.known (mem_of_mem_unregister hmembers.tidy (hreg ▸ hx))
        late := fun {path x} hx => by
          rw [hreg]
          by_cases hxi : x = id
          · subst hxi
            exact .inl (hmembers.ownedAt_unregister_element he₁ hx path)
          · rw [ownedAt_unregister_of_owner hmembers.tidy (Ne.symm hxi), element?_drop, if_neg hxi,
              ← element?_congr hslots]
            exact hmembers.late hx }

/-- Detaching an element keeps the accounts. -/
theorem Accounts.detach (h : t.Accounts n) (e : Element) : (t.detach e).Accounts n := by
  unfold Tree.detach
  split
  · refine h.modifyElement fun p _ => ?_
    have hb := (p.shrinks_detach e.name e.id).bare
    exact ⟨Element.id_of_bare hb, Element.path_of_bare hb, Element.registers_of_bare hb⟩
  · exact h

/-- Removing a subtree closes the accounts of what it removes. -/
theorem accounts_removeSubtree (id : ElementId) :
    Leads (Keeping (Accounts · n)) (removeSubtree id) := by
  unfold removeSubtree get
  refine (leads_reading _).bind fun doomed => (leads_reading _).bind fun e => ?_
  refine leads_changing fun t ht => ?_
  have hdetach := ht.detach e
  generalize t.detach e = t' at hdetach
  induction doomed generalizing t' with
  | nil => exact hdetach
  | cons id doomed ih => exact ih (t'.drop id) (hdetach.drop id)

theorem accounts_content (id : ElementId) (content : Content) :
    Leads (Keeping (Accounts · n)) (update id fun e => { e with content }) :=
  accounts_update fun _ => ⟨rfl, rfl, rfl⟩

/-- Unsetting keeps the accounts. -/
theorem accounts_unset (id : ElementId) : Leads (Keeping (Accounts · n)) (unset id) := by
  refine (leads_reading _).bind fun _ => leads_forM fun id _ => ?_
  unfold clear get
  refine (leads_reading _).bind fun e => ?_
  split
  · exact (accounts_content id _).bind fun _ =>
      leads_forM fun entry _ => accounts_removeSubtree entry
  · refine (leads_ofExcept _).bind fun r => ?_
    obtain ⟨removed, cleared⟩ := r
    exact (accounts_content id cleared).bind fun _ =>
      leads_changing fun t ht => ht.unregisterMembers e _

/-! ## New elements -/

/-- Registering keeps the registry tidy. -/
theorem tidy_register (h : t.registry.Tidy) (e : Element) (path : String) (x : Target) :
    (t.register e path x).registry.Tidy := by
  rw [registry_register]
  split
  · exact h.register _ _
  · exact h

/-- What is registered was so before, or is the new target. -/
theorem mem_or_eq_of_mem_register {path other : String} {x y : Target}
    (hy : y ∈ (t.register e path x).registry.targetsAt other) :
    y ∈ t.registry.targetsAt other ∨ y = x := by
  rw [registry_register] at hy
  split at hy
  · exact (Registry.mem_targetsAt_register_iff.1 hy).imp_right And.right
  · exact .inl hy

/-- What registering adds for an owner. -/
theorem ownedAt_register (t : Tree) (e : Element) (path other : String) (x : Target)
    (id : ElementId) :
    (t.register e path x).registry.ownedAt other id = t.registry.ownedAt other id
      ++ if e.registers = true ∧ other = path ∧ x.owner = id then [x] else [] := by
  rw [registry_register]
  split
  · next hr => rw [Registry.ownedAt_register]; simp only [hr, true_and]
  · next hr => simp [hr]

/-- Linking a new element keeps the accounts. -/
theorem Accounts.link (h : t.Accounts n) (spec : ElementSpec) : (t.link spec).Accounts n := by
  unfold Tree.link
  split
  · refine h.modifyElement fun e _ => ?_
    unfold Element.gain
    split <;> exact ⟨rfl, rfl, rfl⟩
  · exact h

/-- Nothing is registered for a slot that was never taken. -/
theorem Accounts.ownedAt_next (h : t.Accounts n) (path : String) :
    t.registry.ownedAt path ⟨t.slots.size⟩ = [] := by
  refine (h.of_size.late (Nat.le_refl _)).resolve_right fun hone => ?_
  obtain ⟨-, e, he, -⟩ := hone
  exact Nat.lt_irrefl _ (index_lt_of_element? he)

/-- A new element is registered once at its path, or not at all. -/
theorem Accounts.place (h : t.Accounts n) (hid : e.id = ⟨t.slots.size⟩) :
    (t.place e).Accounts n := by
  have hsize : (t.place e).slots.size = t.slots.size + 1 := by simp
  constructor
  case tidy => exact tidy_register h.tidy e _ _
  case id_eq =>
    intro x xe hx
    obtain ⟨rfl, rfl⟩ | hx := place_cases hx
    · exact hid
    · exact h.id_eq hx
  case size_le =>
    rw [hsize]
    exact Nat.le_succ_of_le h.size_le
  case known =>
    intro path x hx
    rw [hsize]
    obtain hx | rfl := mem_or_eq_of_mem_register hx
    · exact Nat.lt_succ_of_lt (h.known hx)
    · rw [Target.owner, hid]
      exact Nat.lt_succ_self _
  case late =>
    intro path x hx
    rw [registry_place, ownedAt_register, element?_place, Target.owner, hid]
    by_cases hxi : x = ⟨t.slots.size⟩
    · subst hxi
      rw [if_pos rfl, h.ownedAt_next, List.nil_append]
      split
      · next hr => exact .inr ⟨rfl, e, rfl, hr.2.1.symm, hr.1⟩
      · exact .inl rfl
    · rw [if_neg hxi, if_neg fun hr => hxi hr.2.2.symm, List.append_nil]
      exact h.late hx

/-- A new element is registered once, at its path, or not at all. -/
theorem accounts_wrap {content : Content} {spec : ElementSpec} :
    Leads (Keeping (Accounts · n)) (wrap content spec) :=
  leads_wrap fun t _ h => (h.link spec).place (by rw [size_slots_link]; rfl)

/-- Building opens an account for every element that it makes. -/
theorem accounts_build (schema : Schema) (spec : ElementSpec) :
    Leads (Keeping (Accounts · n)) (build schema spec) := by
  have hstable : BuildStable (Keeping (Accounts · n)) spec.registers
      (fun _ => True) fun _ => True :=
    { wrap := fun _ _ _ _ _ => accounts_wrap
      field := fun _ => accounts_update fun _ => ⟨rfl, rfl, rfl⟩
      remove := accounts_removeSubtree }
  exact hstable.build schema spec (schema.uses_of_forall (fun _ => trivial) fun _ => trivial) rfl

/-- Adding and deleting entries keep the accounts. -/
theorem entryStable_accounts : EntryStable (Accounts · n) fun _ => True where
  plan := fun _ _ _ _ => trivial
  unset := fun {hook} _ => by
    cases hook with
    | contents id => exact accounts_unset id
    | subtree id => exact accounts_removeSubtree id
  store := fun _ value => accounts_update fun e => by
    unfold store
    split <;> exact ⟨rfl, rfl, rfl⟩
  mark := fun _ _ => accounts_update fun _ => ⟨rfl, rfl, rfl⟩
  build := fun h _ _ => accounts_build _ _ _ h
  remove := accounts_removeSubtree
  members := fun {t id f} h _ => by
    refine accounts_update (fun e => ?_) t h
    split <;> exact ⟨rfl, rfl, rfl⟩
  makeKeys := fun h => h.of_slots rfl rfl
  tell := fun _ h => h.of_slots rfl rfl

/-! ## Items -/

/-- Items of old elements may be registered. -/
theorem Accounts.registerMember (h : t.Accounts n) (he : e.id.index < n) (v : Value) :
    (t.registerMember e v).Accounts n := by
  have hslots := slots_register t e (e.memberPath v) (.member e.id v)
  exact
    { tidy := tidy_register h.tidy e _ _
      id_eq := fun hx => h.id_eq (element?_congr hslots _ ▸ hx)
      size_le := hslots ▸ h.size_le
      known := fun {path x} hx => by
        rw [Tree.registerMember, hslots]
        obtain hx | rfl := mem_or_eq_of_mem_register hx
        · exact h.known hx
        · exact Nat.lt_of_lt_of_le he h.size_le
      late := fun {path x} hx => by
        have hne : e.id ≠ x := by
          rintro rfl
          omega
        rw [Tree.registerMember, ownedAt_register, if_neg fun hr => hne hr.2.2, List.append_nil,
          element?_congr hslots]
        exact h.late hx }

/-- Items of older elements do not count. -/
theorem accounts_registerMember (he : e.id.index < n) (v : Value) :
    Leads (Keeping (Accounts · n)) (changing fun t => t.registerMember e v) :=
  leads_changing fun _ ht => ht.registerMember he v

/-- Carrying out a plan keeps the accounts. -/
theorem accounts_commit (p : Plan) : Leads (Keeping (Accounts · n)) (commit p) :=
  entryStable_accounts.commit fun _ _ => trivial

/-- Editing items of an older element keeps the accounts of the later ones. -/
theorem accounts_editItem (hid : id.index < n) (op : ItemEdit) :
    Leads (Keeping (Accounts · n)) (editItem id op) := by
  unfold editItem get
  refine (leads_reading _).bind fun p => (leads_reading _).bind fun e =>
    (leads_ofExcept _).bind fun r => ?_
  obtain ⟨item, content⟩ := r
  refine (accounts_content id content).bind fun _ => (accounts_commit p).bind fun _ => ?_
  refine leads_reading_bind fun t e he h => ?_
  have hlt : e.id.index < n := by rwa [h.id_eq (element_eq_ok_iff.1 he)]
  have hitem : Leads (Keeping (Accounts · n)) (changing fun t =>
      if op.adds then t.registerMember e item else t.unregisterMember e item) := by
    refine leads_changing fun t ht => ?_
    split
    · exact ht.registerMember hlt item
    · exact ht.unregisterMember e item
  exact (hitem.bind fun _ => leads_pure item) t h

/-- So does adding items in bulk. -/
theorem accounts_extend (hid : id.index < n) (raws : List Value) :
    Leads (Keeping (Accounts · n)) (extend id raws) := by
  unfold extend get
  refine (leads_reading _).bind fun p => (leads_reading _).bind fun e =>
    (leads_ofExcept _).bind fun r => ?_
  obtain ⟨items, content⟩ := r
  refine (accounts_content id content).bind fun _ => (accounts_commit p).bind fun _ => ?_
  refine Leads.bind (leads_forM fun item _ => ?_) fun _ => leads_pure items
  refine leads_reading_bind fun t e he h => ?_
  have hlt : e.id.index < n := by rwa [h.id_eq (element_eq_ok_iff.1 he)]
  exact accounts_registerMember hlt item t h

/-! ## Neat trees -/

/-- The registry is in order, whatever it says of elements from slot `n` on. -/
def Neat (t : Tree) (n : Nat) : Prop := t.Accounts t.slots.size ∧ n ≤ t.slots.size

theorem Accounts.neat (h : t.Accounts n) : t.Neat n := ⟨h.of_size, h.size_le⟩

/-- A neat registry stays neat where the accounts are kept. -/
theorem Neat.of_accounts (h : t.Neat n) (h' : t'.Accounts t.slots.size) : t'.Neat n :=
  ⟨h'.of_size, Nat.le_trans h.2 h'.size_le⟩

/-- What keeps the registry in order wherever old elements end, keeps a tree neat. -/
theorem neat_of_accounts {α : Type} {x : Edit α} (h : ∀ m, Leads (Keeping (Accounts · m)) x) :
    Leads (Keeping (Neat · n)) x := fun t ht => ht.of_accounts (h t.slots.size t ht.1)

/-! ## Sessions -/

/-- A plan that cannot be made stops the edit before anything happens. -/
theorem of_plan {α : Type} {I : Tree → Prop} {f : Plan → Edit α} (hI : I t)
    (h : id.index < t.slots.size → I ((reading (fun t => t.plan id none) >>= f).on t).2) :
    I ((reading (fun t => t.plan id none) >>= f).on t).2 := by
  cases hp : t.plan id none with
  | error err =>
    rw [on_bind, on_reading, hp]
    exact hI
  | ok p =>
    obtain ⟨e, he⟩ := exists_of_planFrom hp
    exact h (index_lt_of_element? he)

/-- Every operation keeps the registry in order, whether it succeeds or fails. -/
theorem accounts_after (op : Operation) (h : t.Accounts t.slots.size) :
    (op.after t).Accounts (op.after t).slots.size := by
  have hentry := entryStable_accounts (n := t.slots.size)
  refine Accounts.of_size (n := t.slots.size) ?_
  cases op with
  | wrap content spec => exact accounts_wrap t h
  | instantiate schema spec => exact leads_instantiate hentry.tell (accounts_build schema spec) t h
  | set id active => exact hentry.set id active t h
  | setLeaf id raw => exact hentry.setLeaf id raw t h
  | editItem id edit =>
    exact of_plan (I := (Accounts · t.slots.size)) h fun hid => accounts_editItem hid edit t h
  | extend id raws =>
    exact of_plan (I := (Accounts · t.slots.size)) h fun hid => accounts_extend hid raws t h
  | unset id => exact accounts_unset id t h
  | removeSubtree id => exact accounts_removeSubtree id t h
  | add id key => exact hentry.add id key t h
  | delete id key => exact hentry.delete id key t h

/-- In every session the registry is in order. -/
theorem accounts_of_reaches {admits : Tree → Operation → Prop} (h : Reaches admits {} t) :
    t.Accounts t.slots.size :=
  h.keeps (I := fun t => t.Accounts t.slots.size) (fun _ op ha _ => accounts_after op ha)
    (Accounts.of_size accounts_empty)

end DataTree.Tree
