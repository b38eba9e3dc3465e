import DataTree.Proofs.Session
import DataTree.Proofs.Structure.Lists

/-!
# DataTree.Proofs.Structure.WellFormed

Every tree that callers can bring about is well-formed, and an id that was given
up is never used again.
-/

namespace DataTree

open Edit Outcome

namespace Tree

variable {t t' : Tree} {id x : ElementId} {e : Element}

/-! ## Well-formed trees -/

/-- Everything that containers and lists say is below them, element by element. -/
def listings (t : Tree) : List ElementId :=
  t.ids.flatMap fun id => ((t.element? id).map Element.below).getD []

/-- A tree in which the elements agree about who is above whom. -/
structure WellFormed (t : Tree) : Prop where
  /-- Parents are there, and older than what is below them. -/
  parent : ∀ {id e p}, t.element? id = some e → e.parent = some p →
    p.index < id.index ∧ ∃ pe, t.element? p = some pe
  /-- So every way up ends, and every way down. -/
  climb : ∀ {id e}, t.element? id = some e → ∃ marks, t.marks id = .ok marks
  descent : ∀ {id e}, t.element? id = some e → ∃ below, t.subtree id = .ok below
  child : ∀ {id e name c}, t.element? id = some e → (name, c) ∈ e.children →
    e.content = .container ∧ ∃ ce, t.element? c = some ce ∧
      ce.parent = some id ∧ ce.name = name ∧ ce.path = Path.child e.path name
  entry : ∀ {id e l key c}, t.element? id = some e → e.content = .list l →
    (key, c) ∈ l.members → ∃ ce, t.element? c = some ce ∧
      ce.content = .container ∧ ce.parent = some id ∧ l.IsEntryPath e.path key ce.path
  /-- What has a parent is listed once. -/
  once : ∀ {id e p}, t.element? id = some e → e.parent = some p → t.listings.count id = 1
  live : t.live = t.ids.length

/-- Nothing is below an element twice. -/
theorem Sound.nodup_below {pending : Set ElementId} (h : Sound t pending)
    (he : t.element? id = some e) : e.below.Nodup := by
  have hchildren : (e.children.map Prod.snd).Nodup := by
    refine List.Nodup.map_on ?_ (List.Nodup.of_map _ (h.names he))
    intro m hm m' hm' heq
    obtain ⟨-, -, ce, hce, -, hname, -⟩ := h.child he hm
    obtain ⟨-, -, ce', hce', -, hname', -⟩ := h.child he hm'
    rw [heq, hce'] at hce
    obtain rfl := Option.some.inj hce
    exact Prod.ext (hname.symm.trans hname') heq
  rw [Element.below]
  cases hl : e.content with
  | list l =>
    rw [h.children_eq_nil he (by simp [hl])]
    exact h.entries he hl
  | _ =>
    rw [Content.entries, List.append_nil]
    · exact hchildren
    · simp

/-- A sound tree that owes no links is well-formed. -/
theorem Sound.wellFormed (h : Sound t ∅) : t.WellFormed := by
  constructor
  case parent =>
    intro id e p he hp
    obtain ⟨pe, hpe, -⟩ := h.listed he hp (Set.notMem_empty id)
    exact ⟨h.parent_lt he hp, pe, hpe⟩
  case climb =>
    intro id e he
    exact exists_marksFrom h he (fun x hx => absurd hx (Set.notMem_empty x)) (Nat.lt_succ_self _)
  case descent =>
    intro id e he
    obtain ⟨below, hb, -⟩ := subtree_spec h he
    exact ⟨below, hb⟩
  case child =>
    intro id e name c he hm
    obtain ⟨hc, -, hce⟩ := h.child he hm
    exact ⟨hc, hce⟩
  case entry =>
    intro id e l key c he hl hm
    exact (h.entry he hl hm).2
  case once =>
    intro id e p he hp
    obtain ⟨pe, hpe, hid⟩ := h.listed he hp (Set.notMem_empty id)
    have hnodup : t.listings.Nodup := by
      refine List.nodup_flatMap.2 ⟨fun q hq => ?_, ?_⟩
      · obtain ⟨qe, hqe⟩ := mem_ids_iff.1 hq
        rw [hqe]
        exact h.nodup_below hqe
      · refine t.nodup_ids.imp ?_
        have hparent : ∀ {q x}, x ∈ ((t.element? q).map Element.below).getD [] →
            ∃ xe, t.element? x = some xe ∧ xe.parent = some q := by
          intro q x hx
          cases hqe : t.element? q with
          | none =>
            rw [hqe] at hx
            cases hx
          | some qe =>
            rw [hqe] at hx
            exact (h.of_mem_below hqe hx).2
        intro q q' hne x hx hx'
        obtain ⟨xe, hxe, hq⟩ := hparent hx
        obtain ⟨xe', hxe', hq'⟩ := hparent hx'
        obtain rfl : xe = xe' := Option.some.inj (hxe.symm.trans hxe')
        exact hne (Option.some.inj (hq.symm.trans hq'))
    refine List.count_eq_one_of_mem hnodup ?_
    refine List.mem_flatMap.2 ⟨p, mem_ids_iff.2 ⟨pe, hpe⟩, ?_⟩
    rw [hpe]
    exact hid
  case live => exact h.live

/-! ## Ids are used once -/

/-- Slots are added at most, and an empty one is never filled. -/
structure Ages (t t' : Tree) : Prop where
  size_le : t.slots.size ≤ t'.slots.size
  empty : ∀ {id}, id.index < t.slots.size → t.element? id = none → t'.element? id = none

instance : IsPreorder Tree Ages where
  refl _ := ⟨Nat.le_refl _, fun _ h => h⟩
  trans _ _ _ h h' :=
    ⟨Nat.le_trans h.size_le h'.size_le,
      fun hlt hid => h'.empty (Nat.lt_of_lt_of_le hlt h.size_le) (h.empty hlt hid)⟩

/-- A tree that gets less gets older: no slot is given out anew. -/
theorem Shrinks.ages (h : t.Shrinks t') : t.Ages t' :=
  ⟨Nat.le_of_eq h.size.symm, fun _ => h.element?_eq_none⟩

/-- Making an element takes a new slot. -/
theorem ages_wrap (content : Content) (spec : ElementSpec) : Leads Ages (wrap content spec) := by
  refine leads_wrap fun t _ => ⟨by simp, fun {id} hlt hid => ?_⟩
  have hne : id ≠ ⟨t.slots.size⟩ := by
    intro heq
    rw [heq] at hlt
    exact Nat.lt_irrefl _ hlt
  rw [element?_place, size_slots_link, if_neg hne, element?_link, hid]
  split <;> rfl

/-- Changing an element takes no slot and gives none back. -/
theorem ages_update (id : ElementId) (f : Element → Element) : Leads Ages (update id f) := by
  refine leads_update fun t e _ => ⟨by simp, fun {x} _ hx => ?_⟩
  rw [element?_modifyElement, hx]
  split <;> rfl

/-- Building a schema takes new slots only. -/
theorem buildStable_ages (registers : Bool) :
    BuildStable Ages registers (fun _ => True) fun _ => True where
  wrap := fun content spec _ _ _ => ages_wrap content spec
  field := fun _ => ages_update _ _
  remove := fun id t => (shrinks_removeSubtree id t).ages

/-- Building takes new slots only. -/
theorem ages_build (schema : Schema) (spec : ElementSpec) : Leads Ages (build schema spec) :=
  (buildStable_ages spec.registers).build schema spec
    (schema.uses_of_forall (fun _ => trivial) fun _ => trivial) rfl

/-- Assigning and editing take no slot and give none out anew. -/
theorem frameStable_ages (t₀ : Tree) : FrameStable (Ages t₀) fun _ => True where
  plan := fun _ _ _ _ => trivial
  unset := fun {hook} _ t ht => trans_of Ages ht (shrinks_runUnset hook t).ages
  same := fun hs ht => trans_of Ages ht hs.shrinks.ages

/-- Adding and deleting entries give no slot out anew. -/
theorem entryStable_ages (t₀ : Tree) : EntryStable (Ages t₀) fun _ => True where
  toAssignStable := (frameStable_ages t₀).assignStable
  build := fun ht _ _ => trans_of Ages ht (ages_build _ _ _)
  remove := fun id t ht => trans_of Ages ht (shrinks_removeSubtree id t).ages
  members := fun ht _ => trans_of Ages ht (ages_update _ _ _)
  makeKeys := fun ht => ⟨ht.size_le, ht.empty⟩
  tell := fun _ ht => ⟨ht.size_le, ht.empty⟩

/-- Every operation ages the tree. -/
theorem ages_after (op : Operation) (t : Tree) : t.Ages (op.after t) := by
  have hframe := frameStable_ages t
  have hentry := entryStable_ages t
  have ht := refl_of Ages t
  cases op with
  | wrap content spec => exact ages_wrap content spec t
  | instantiate schema spec =>
    refine leads_instantiate hentry.tell (fun t' ht' => ?_) t ht
    exact trans_of Ages ht' (ages_build schema spec t')
  | set id active => exact hframe.assignStable.set id active t ht
  | setLeaf id raw => exact hframe.assignStable.setLeaf id raw t ht
  | editItem id edit => exact hframe.editItem id edit t ht
  | extend id raws => exact hframe.extend id raws t ht
  | unset id => exact (shrinks_unset id t).ages
  | removeSubtree id => exact (shrinks_removeSubtree id t).ages
  | add id key => exact hentry.add id key t ht
  | delete id key => exact hentry.delete id key t ht

/-! ## Sessions -/

/-- A place for a new subtree: it becomes a root, or the child of a container that has
no child of its name, at the path below the container. -/
def HasPlace (t : Tree) (spec : ElementSpec) : Prop :=
  spec.parent = none ∨ ∃ p pe, spec.parent = some p ∧ t.element? p = some pe ∧
    pe.content = .container ∧ spec.name ∉ Assoc.keys pe.children ∧ spec.registerPath = none

/-- Subtrees are instantiated where there is a place for them; single elements are not made
by hand. -/
def Regular (t : Tree) : Operation → Prop
  | .wrap _ _ _ => False
  | .instantiate _ spec => t.HasPlace spec
  | _ => True

/-- An element that has a place fits into the tree, and owes it no link. -/
theorem HasPlace.fits {spec : ElementSpec} (h : t.HasPlace spec) :
    t.Fits spec ∧ t.pendingFor spec = ∅ := by
  obtain hp | ⟨p, pe, hp, hpe, hc, hname, hpath⟩ := h
  · refine ⟨⟨fun q hq => ?_, fun hq => ?_⟩, ?_⟩
    · rw [hp] at hq
      cases hq
    · rw [hp] at hq
      cases hq
    · exact pendingFor_of_none hp
  · refine ⟨⟨fun q hq => ?_, fun {q qe} hq hqe _ => ⟨?_, hpath⟩⟩, ?_⟩
    · obtain rfl : p = q := Option.some.inj (hp.symm.trans hq)
      exact ⟨pe, hpe⟩
    · obtain rfl : p = q := Option.some.inj (hp.symm.trans hq)
      obtain rfl : pe = qe := Option.some.inj (hpe.symm.trans hqe)
      exact hname
    · exact pendingFor_of_container hp hpe hc

/-- A regular operation keeps the structure sound, whether it succeeds or fails. -/
theorem sound_after {op : Operation} (h : Sound t ∅) (hop : t.Regular op) :
    Sound (op.after t) ∅ := by
  have hframe := frameStable_sound ∅
  cases op with
  | wrap content spec => exact hop.elim
  | instantiate schema spec =>
    obtain ⟨hfit, hpend⟩ := HasPlace.fits hop
    exact sound_instantiate schema.distinct hfit hpend h
  | set id active => exact hframe.assignStable.set id active t h
  | setLeaf id raw => exact hframe.assignStable.setLeaf id raw t h
  | editItem id edit => exact hframe.editItem id edit t h
  | extend id raws => exact hframe.extend id raws t h
  | unset id => exact sound_unset ∅ id t h
  | removeSubtree id =>
    have hr := h.ensures_removeSubtree id
    rw [Set.empty_sdiff] at hr
    refine rel_of_ensures (R := fun _ t' => Sound t' ∅)
      (hr.mono (fun _ _ hd => hd) fun _ t' hf => ?_)
    rw [hf.1]
    exact h
  | add id key => exact sound_add id key t h
  | delete id key => exact sound_delete id key t h

/-- Trees are sound in every regular session. -/
theorem sound_of_reaches (h : Reaches Regular {} t) : Sound t ∅ :=
  h.keeps (fun _ _ hs hop => sound_after hs hop) sound_empty

/-- **Well-formedness**: every tree that regular operations lead to is well-formed, and
an id that is given up on the way is never used again. -/
theorem wellFormed_of_reaches (h : Reaches Regular {} t) :
    t.WellFormed ∧ ∀ {t₁ t₂ id}, Reaches Regular t t₁ → Reaches Regular t₁ t₂ →
      (t.element? id).isSome → t₁.element? id = none → t₂.element? id = none := by
  refine ⟨(sound_of_reaches h).wellFormed, fun {t₁ t₂ id} h₁ h₂ hid hnone => ?_⟩
  have hages : ∀ {t t' : Tree}, Reaches Regular t t' → t.Ages t' := by
    intro t t' hr
    exact hr.keeps (fun t' op ht' _ => trans_of Ages ht' (ages_after op t')) (refl_of Ages t)
  obtain ⟨e, he⟩ := Option.isSome_iff_exists.1 hid
  have hlt := Nat.lt_of_lt_of_le (index_lt_of_element? he) (hages h₁).size_le
  exact (hages h₂).empty hlt hnone

/-! ## A session -/

/-- Interfaces by name. -/
def interfaces : Blueprint :=
  .container [⟨"interface", none, .list ⟨⟨["name"]⟩, [⟨"name", none, .leaf (.text {})⟩], false⟩⟩]

/-- A tree of interfaces, and what becomes of it when one comes, goes, and comes back. -/
def configured : Tree := (Operation.instantiate interfaces { name := "interfaces" }).after {}

def plugged : Tree := (Operation.add ⟨1⟩ (some "eth0")).after configured

def unplugged : Tree := (Operation.delete ⟨1⟩ "eth0").after plugged

def replugged : Tree := (Operation.add ⟨1⟩ (some "eth0")).after unplugged

theorem reaches_plugged : Reaches Regular {} plugged := by
  have hstart : Reaches Regular {} configured :=
    Reaches.andThen .refl (.instantiate interfaces { name := "interfaces" }) (.inl rfl)
  exact hstart.andThen (.add ⟨1⟩ (some "eth0")) trivial

/-- The interface that comes back gets other ids. -/
theorem wellFormed_plugged :
    plugged.ids = [⟨0⟩, ⟨1⟩, ⟨2⟩, ⟨3⟩] ∧ plugged.WellFormed ∧
      replugged.ids = [⟨0⟩, ⟨1⟩, ⟨4⟩, ⟨5⟩] ∧ replugged.element? ⟨2⟩ = none := by
  obtain ⟨hwell, hids⟩ := wellFormed_of_reaches reaches_plugged
  have hgo : Reaches Regular plugged unplugged :=
    Reaches.andThen .refl (.delete ⟨1⟩ "eth0") trivial
  have hcome : Reaches Regular unplugged replugged :=
    Reaches.andThen .refl (.add ⟨1⟩ (some "eth0")) trivial
  have hgone : unplugged.element? ⟨2⟩ = none := Option.isNone_iff_eq_none.1 (by decide +kernel)
  exact ⟨by decide +kernel, hwell, by decide +kernel, hids hgo hcome (by decide +kernel) hgone⟩

end Tree

end DataTree
