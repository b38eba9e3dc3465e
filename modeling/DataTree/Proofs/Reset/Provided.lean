import DataTree.Proofs.Atomic.Items
import DataTree.Proofs.Reset.Releases

/-!
# DataTree.Proofs.Reset.Provided

The registry has all that the elements call for.

An operation on items changes the items first, carries out its plan next, and registers or
drops the items last.  In between the registry is `owed` registrations, or it has some to
`spare`; and if the plan took away the element itself, nobody calls for them any more
(`Affords.of_gone`).  A plan that cannot be carried out to the end has done just that
(`gone_of_commit`).  So after every operation, whether it succeeds or fails, the registry
has at least what the elements call for (`provided_after`).
-/

namespace DataTree

open Edit Outcome

theorem Content.members_of_isInitial {c : Content} (h : c.IsInitial) : c.members = [] := by
  cases c with
  | leafList l => exact h
  | custom c => exact h.elim
  | _ => rfl

/-- Items that come or go in a content of a schema. -/
theorem Content.members_subperm_of_edit {c c' : Content} {op : ItemEdit} {v : Value}
    (h : c.edit op = .ok (v, c')) (hop : op.Proper) (hc : c.isCustom = false) :
    ((if op.adds then [] else [v]) ++ c'.members).Subperm
      ((if op.adds then [v] else []) ++ c.members) := by
  have hc' : c'.isCustom = false := (isCustom_of_bare (sameFrame_of_edit h).1).trans hc
  have hmost : c.HoldsAtMost := tallies_of_not_custom hc
  have hitems := (hmost.of_edit h hop).2
  rw [items_of_not_custom hc, items_of_not_custom hc'] at hitems
  cases hadds : op.adds with
  | true => rwa [if_pos hadds] at hitems
  | false => rwa [hadds, if_neg (by decide)] at hitems

theorem Content.members_subperm_of_extend {c c' : Content} {raws vs : List Value}
    (h : c.extend raws = .ok (vs, c')) (hraws : ∀ raw ∈ raws, raw.Proper)
    (hc : c.isCustom = false) :
    c'.members.Subperm (vs ++ c.members) := by
  have hc' : c'.isCustom = false := (isCustom_of_bare (sameFrame_of_extend h).1).trans hc
  have hmost : c.HoldsAtMost := tallies_of_not_custom hc
  have hitems := (hmost.of_extend h hraws).2
  rwa [items_of_not_custom hc, items_of_not_custom hc'] at hitems

namespace Tree

variable {t t' : Tree} {id x : ElementId} {e : Element} {n : Nat} {spare owed : List Registration}

/-! ## What is owed -/

/-- The registry has what the elements call for, and some to spare, but for what it is owed. -/
def Affords (t : Tree) (spare owed : List Registration) : Prop :=
  ∀ path {z : Target}, z.Proper →
    (t.calls z.owner).countP (Registration.hits path z) + spare.countP (Registration.hits path z)
      ≤ t.registry.count path z + owed.countP (Registration.hits path z)

/-- What goes takes no more than its own registrations along. -/
theorem Affords.releases (h : t.Affords spare owed) (hr : t.Releases t') :
    t'.Affords spare owed := by
  intro path z hz
  have hbefore := h path hz
  obtain ⟨hle, hcount⟩ := hr path hz
  omega

/-- Nobody calls for what is owed on behalf of an element that is gone. -/
theorem Affords.of_gone (h : t.Affords spare owed) (hown : ∀ reg ∈ owed, reg.2.owner = id)
    (hgone : t.element? id = none) : t.Affords [] [] := by
  intro path z hz
  have hbefore := h path hz
  by_cases hx : z.owner = id
  · rw [hx, calls_of_none hgone]
    simp
  · rw [Registration.countP_hits_of_owner hown hx] at hbefore
    rw [List.countP_nil]
    omega

/-- With other items an element calls for other registrations. -/
theorem Affords.withContent (h : t.Affords [] []) (he : t.element? id = some e) (hid : e.id = id)
    {c : Content} {gone new : List Value}
    (hitems : (gone ++ c.members).Subperm (new ++ e.content.members)) :
    (t.withContent id c).Affords (e.backing gone) (e.backing new) := by
  intro path z hz
  have hbefore := h path hz
  rw [List.countP_nil] at hbefore
  show _ ≤ t.registry.count path z + _
  by_cases hx : z.owner = id
  · have hcalls : (t.withContent id c).calls id = e.standing ++ e.backing c.members :=
      calls_of_some (element?_modifyElement_self he)
    have hsum := (e.subperm_backing hitems).countP_le (Registration.hits path z)
    rw [e.backing_append, e.backing_append, List.countP_append, List.countP_append] at hsum
    rw [hx, calls_of_some he, Element.calls, List.countP_append] at hbefore
    rw [hx, hcalls, List.countP_append]
    omega
  · have hcalls : (t.withContent id c).calls z.owner = t.calls z.owner :=
      calls_of_stub (by rw [Tree.withContent, element?_modifyElement_of_ne hx])
    have hnone : ∀ vs, (e.backing vs).countP (Registration.hits path z) = 0 := fun vs =>
      Registration.countP_hits_of_owner
        (fun reg hreg => (Element.owner_of_mem_backing hreg).trans hid) hx path
    rw [hcalls, hnone, hnone]
    exact hbefore

/-- Registering an item that is owed. -/
theorem Affords.registerMember {v : Value} {vs : List Value}
    (h : t.Affords [] (e.backing (v :: vs))) :
    (t.registerMember e v).Affords [] (e.backing vs) := by
  intro path z hz
  have hbefore := h path hz
  have hsum : e.backing (v :: vs) = e.backing [v] ++ e.backing vs := e.backing_append [v] vs
  have hcalls : (t.registerMember e v).calls z.owner = t.calls z.owner :=
    calls_of_stub
      (by rw [element?_congr (show (t.registerMember e v).slots = _ from slots_register t e _ _)])
  have hcount : (t.registerMember e v).registry.count path z
      = t.registry.count path z + (e.backing [v]).countP (Registration.hits path z) := by
    unfold Tree.registerMember register Element.backing
    split
    · exact (Registry.count_register _ _ _ _ _).trans
        (by rw [List.map_singleton, List.countP_singleton]; rfl)
    · rfl
  rw [hsum, List.countP_append] at hbefore
  rw [hcalls, hcount]
  omega

/-- Dropping an item that is to spare. -/
theorem Affords.unregisterMember {v : Value} (h : t.Affords (e.backing [v]) [])
    (ht : t.registry.Tidy) (hr : t.registry.AllProper) (hv : v.Proper) :
    (t.unregisterMember e v).Affords [] [] := by
  intro path z hz
  have hbefore := h path hz
  obtain ⟨-, -, hcount⟩ := count_unregister ht hr e (e.memberPath v) (y := .member e.id v) hv
  have hcount := hcount path hz
  have hone : e.backing [v] = if e.registers then [(e.memberPath v, .member e.id v)] else [] := rfl
  have hcalls : (t.unregisterMember e v).calls z.owner = t.calls z.owner :=
    calls_of_stub (by rw [element?_congr
      (show (t.unregisterMember e v).slots = _ from slots_unregister t e _ _)])
  rw [hone] at hbefore
  rw [hcalls, Tree.unregisterMember, hcount, List.countP_nil]
  rw [List.countP_nil] at hbefore
  omega

/-! ## Trees between operations -/

/-- The registry is in order, and has what the elements call for. -/
structure Provided (t : Tree) (n : Nat) : Prop extends Clean t n where
  affords : t.Affords [] []

theorem provided_empty : Provided {} 0 where
  toReady := ready_empty
  targets := fun hx => by cases hx
  affords := fun path z _ => by simp [calls, element?]

theorem Provided.of_size (h : t.Provided n) : t.Provided t.slots.size :=
  ⟨⟨h.toReady.of_size, h.targets⟩, h.affords⟩

theorem Provided.of_slots (h : t.Provided n) (hs : t'.slots = t.slots)
    (hr : t'.registry = t.registry) : t'.Provided n where
  toClean := h.toClean.of_slots hs hr
  affords := h.affords.releases (releases_of_stub hr fun x => by rw [element?_congr hs])

/-- An edit that only releases registrations leaves what the elements call for. -/
theorem provided_of_releases {α : Type} {edit : Edit α}
    (h : Leads (Given (Clean · n) Releases) edit) :
    Leads (Keeping (Provided · n)) edit := fun t ht =>
  have hafter := h t ht.toClean
  ⟨hafter.1, ht.affords.releases hafter.2⟩

/-! ## Items -/

/-- **A plan that cannot be carried out** has taken away the element that it was made for. -/
theorem gone_of_commit {p : Plan} (h : Sound t ∅) (ha : t.Arranged) (hp : t.plan id none = .ok p) :
    (commit p).Ensures t (fun _ _ => True) fun _ t' => t'.element? id = none := by
  have hrun := (ensures_runUnsets_plan h ha hp).and
    (ran_of_runUnsets h ha.declared ((frameStable_sound ∅).plan h hp))
  refine (hrun.mono (fun _ _ hr => hr.2) fun _ _ hf => hf.1.elim).bind fun _ t₂ hran => ?_
  cases hid : t₂.element? id with
  | some e₂ =>
    refine (ensures_markChanged fun y hy => ?_).mono (fun _ _ hd => hd) fun _ _ hf => hf.elim
    exact hran.isSome_of_mem_marks h hp (by rw [hid]; rfl) hy
  | none =>
    exact ((shrinks_markChanged p.marks).ensures t₂).mono (fun _ _ _ => trivial)
      fun _ _ hs => hs.element?_eq_none hid

/-- Changing items and carrying out the plan leaves the registry with what it is owed and what it
has to spare, unless the element goes. -/
theorem Provided.ensures_commit {p : Plan} {c : Content} (gone new : List Value) (h : t.Provided n)
    (hs : Sound t ∅) (ha : t.Arranged) (hp : t.plan id none = .ok p) (he : t.element? id = some e)
    (hsame : e.content.SameFrame c) (hc : c.Proper)
    (hitems : (gone ++ c.members).Subperm (new ++ e.content.members)) :
    (commit p).Ensures (t.withContent id c)
      (fun _ t₂ => t₂.Clean n ∧ t₂.Affords (e.backing gone) (e.backing new) ∧
        (∀ e₂, t₂.element? id = some e₂ → e₂.id = id ∧ e₂.backing = e.backing) ∧
        (t₂.element? id = none → t₂.Provided n))
      fun _ t₂ => t₂.Provided n := by
  have hid := h.accounts.id_eq he
  have hclean : (t.withContent id c).Clean n := ⟨ready_withContent h.toReady id hc, h.targets⟩
  have haffords := h.affords.withContent he hid hitems
  have hframe : t.SameFrame (t.withContent id c) := by
    refine sameFrame_modifyElement fun e' he' => ?_
    obtain rfl : e = e' := Option.some.inj (he.symm.trans he')
    exact Element.frame_of_content hsame
  have hs₁ := hs.sameFrame hframe
  have hp₁ : (t.withContent id c).planFrom (id.index + 1) id none = .ok p := by
    refine planFrom_of_bare hs₁ (hframe.retains.thins.bareTo id) ?_ (fun y hy => hy.elim) hp
    rw [withContent, isSome_element?_modifyElement, he]
    rfl
  have hreleases := ensures_of_rel (R := fun t t' => t'.Clean n ∧ t.Releases t')
    (x := commit p) (releases_commit p _ hclean)
  have hall := (hreleases.and (gone_of_commit hs₁ (ha.retains hframe.retains) hp₁)).and
    ((shrinks_commit p).ensures (t.withContent id c))
  have hgone : ∀ {t₂}, t₂.Clean n → (t.withContent id c).Releases t₂ → t₂.element? id = none →
      t₂.Provided n := fun hc₂ hr₂ hnone =>
    ⟨hc₂, (haffords.releases hr₂).of_gone
      (fun reg hreg => (Element.owner_of_mem_backing hreg).trans hid) hnone⟩
  refine hall.mono (fun _ t₂ h₂ => ?_) fun _ t₂ h₂ => hgone h₂.1.1.1 h₂.1.1.2 h₂.1.2
  obtain ⟨⟨⟨hc₂, hr₂⟩, -⟩, hs₂⟩ := h₂
  refine ⟨hc₂, haffords.releases hr₂, fun e₂ he₂ => ?_, hgone hc₂ hr₂⟩
  obtain ⟨e₁, he₁, hse⟩ := hs₂.element he₂
  rw [withContent, element?_modifyElement_self he] at he₁
  obtain rfl := Option.some.inj he₁
  have hid₂ : e₂.id = e.id := (Element.id_of_bare hse.bare).trans rfl
  have hpath₂ : e₂.path = e.path := (Element.path_of_bare hse.bare).trans rfl
  have hreg₂ : e₂.registers = e.registers := (Element.registers_of_bare hse.bare).trans rfl
  exact ⟨hid₂.trans hid, Element.backing_congr hid₂ hpath₂ hreg₂⟩

theorem Clean.registerMember (h : t.Clean n) (he : e.id.index < n) {v : Value} (hv : v.Proper) :
    (t.registerMember e v).Clean n := by
  refine ⟨ready_registerMember h.toReady he v, ?_⟩
  unfold Tree.registerMember register
  split
  · exact Registry.AllProper.register (y := .member e.id v) h.targets _ hv
  · exact h.targets

/-- Items that the registry lacks are registered one by one. -/
theorem Provided.registerMembers (items : List Value) (h : t.Clean n)
    (ha : t.Affords [] (e.backing items)) (he : e.id.index < n) (hitems : ∀ v ∈ items, v.Proper) :
    (items.foldl (fun t v => t.registerMember e v) t).Provided n := by
  induction items generalizing t with
  | nil => exact ⟨h, by rwa [Element.backing_nil] at ha⟩
  | cons v items ih =>
    exact ih (h.registerMember he (hitems v List.mem_cons_self)) ha.registerMember
      fun w hw => hitems w (List.mem_cons_of_mem v hw)

/-- Editing items keeps the registry provided. -/
theorem Provided.editItem (h : t.Provided n) (hid : id.index < n) (hs : Sound t ∅) (ha : t.Arranged)
    {op : ItemEdit} (hop : op.Proper) : ((editItem id op).on t).2.Provided n := by
  refine rel_of_ensures (R := fun _ t' => t'.Provided n)
    (ensures_editItem (fun _ => h) fun {p e item content} hp he hedit => ?_)
  obtain ⟨hitem, hcontent⟩ := Content.proper_of_edit hedit hop (h.fitted he)
  have hitems :=
    Content.members_subperm_of_edit hedit hop (Content.isCustom_of_isDeclared (ha.declared he))
  refine (h.ensures_commit _ _ hs ha hp he (Content.sameFrame_of_edit hedit) hcontent hitems).mono
    (fun _ t₂ h₂ => ?_) fun _ _ hf => hf
  obtain ⟨hclean, haffords, hel, hgone⟩ := h₂
  refine ⟨fun e₂ he₂ => ?_, hgone⟩
  obtain ⟨hid₂, hback⟩ := hel e₂ he₂
  rw [← hback] at haffords
  cases hadds : op.adds with
  | true =>
    rw [hadds, if_pos rfl, if_pos rfl, Element.backing_nil] at haffords
    exact Provided.registerMembers [item] hclean haffords (hid₂ ▸ hid)
      fun v hv => List.mem_singleton.1 hv ▸ hitem
  | false =>
    rw [hadds, if_neg (by decide), if_neg (by decide), Element.backing_nil] at haffords
    obtain ⟨-, htargets, -⟩ :=
      count_unregister hclean.accounts.tidy hclean.targets e₂ (e₂.memberPath item)
      (y := .member e₂.id item) hitem
    exact ⟨⟨ready_unregisterMember hclean.toReady e₂ item, htargets⟩,
      haffords.unregisterMember hclean.accounts.tidy hclean.targets hitem⟩

/-- So does adding in bulk. -/
theorem Provided.extend (h : t.Provided n) (hid : id.index < n) (hs : Sound t ∅) (ha : t.Arranged)
    {raws : List Value} (hraws : ∀ raw ∈ raws, raw.Proper) :
    ((extend id raws).on t).2.Provided n := by
  refine rel_of_ensures (R := fun _ t' => t'.Provided n)
    (ensures_extend (fun _ => h) fun {p e items content} hp he hextend => ?_)
  obtain ⟨hitems, hcontent⟩ := Content.proper_of_extend hextend hraws (h.fitted he)
  have hmembers :=
    Content.members_subperm_of_extend hextend hraws
      (Content.isCustom_of_isDeclared (ha.declared he))
  refine (h.ensures_commit [] _ hs ha hp he (Content.sameFrame_of_extend hextend)
    hcontent hmembers).mono (fun _ t₂ h₂ => ?_) fun _ _ hf => hf
  obtain ⟨hclean, haffords, hel, hgone⟩ := h₂
  refine ⟨fun e₂ he₂ => ?_, fun hnone => ⟨hgone hnone, hgone hnone⟩⟩
  obtain ⟨hid₂, hback⟩ := hel e₂ he₂
  rw [← hback, Element.backing_nil] at haffords
  exact Provided.registerMembers _ hclean haffords (hid₂ ▸ hid) hitems

/-! ## Building and entries -/

/-- A new element is registered at its path, and holds no items yet. -/
theorem provided_wrap {content : Content} {spec : ElementSpec} (hc : content.IsInitial) :
    Leads (Keeping (Provided · n)) (wrap content spec) := by
  refine leads_wrap fun t hparent h => ?_
  have hready : ((wrap content spec).on t).2.Ready n :=
    (deregisters_wrap (x := ⟨t.slots.size⟩) (Content.proper_of_isInitial hc) t h.toReady).1
  rw [on_wrap content hparent] at hready
  have hlink : (t.link spec).Clean n ∧ t.Releases (t.link spec) := by
    unfold link
    split
    · exact h.toClean.modifyElement fun p _ => p.stub_gain spec.name _
    · exact ⟨h.toClean, refl_of Releases t⟩
  have hsize : (t.link spec).slots.size = t.slots.size := size_slots_link t spec
  have haffords := h.affords.releases hlink.2
  let e := t.newElement content spec
  have hcalls : e.calls = e.standing := by
    have hmembers : e.content.members = [] := Content.members_of_isInitial hc
    rw [Element.calls, hmembers, Element.backing_nil, List.append_nil]
  have hel : ∀ x, ((t.link spec).place e).element? x
      = if x = ⟨t.slots.size⟩ then some e else (t.link spec).element? x := by
    intro x
    rw [element?_place, hsize]
  have hregistry : ((t.link spec).place e).registry =
      if e.registers then (t.link spec).registry.register e.path (.element ⟨t.slots.size⟩)
      else (t.link spec).registry := by
    rw [registry_place, registry_register]
    rfl
  refine ⟨⟨hready, ?_⟩, fun path z hz => ?_⟩
  · rw [hregistry]
    split
    · exact Registry.AllProper.register (y := .element _) hlink.1.targets _ trivial
    · exact hlink.1.targets
  · have hbefore := haffords path hz
    have hcount : ((t.link spec).place e).registry.count path z
        = (t.link spec).registry.count path z + e.standing.countP (Registration.hits path z) := by
      rw [hregistry, Element.standing]
      split
      · rw [Registry.count_register, List.countP_singleton]
        rfl
      · rfl
    by_cases hx : z.owner = ⟨t.slots.size⟩
    · rw [hx, calls_of_some (by rw [hel, if_pos rfl]), hcalls, hcount]
      omega
    · have hother : ((t.link spec).place e).calls z.owner = (t.link spec).calls z.owner :=
        calls_of_stub (by rw [hel, if_neg hx])
      rw [hother, hcount]
      omega

/-- Building provides for every element that it makes. -/
theorem provided_build (schema : Schema) (spec : ElementSpec) :
    Leads (Keeping (Provided · n)) (build schema spec) := by
  have hstable : BuildStable (Keeping (Provided · n)) spec.registers
      (fun _ => True) fun _ => True :=
    { wrap := fun _ _ hc _ _ => provided_wrap hc
      field := fun _ => provided_of_releases (releases_update fun _ => rfl)
      remove := fun id => provided_of_releases (releases_removeSubtree id) }
  exact hstable.build schema spec (schema.uses_of_forall (fun _ => trivial) fun _ => trivial) rfl

/-- Adding and deleting entries keep the registry provided. -/
theorem entryStable_provided : EntryStable (Provided · n) fun _ => True where
  plan := fun _ _ _ _ => trivial
  unset := fun _ => provided_of_releases (releases_runUnset _)
  store := fun _ value => provided_of_releases (releases_update (Element.stub_store value))
  mark := fun id changed => provided_of_releases (releases_mark id changed)
  build := fun h _ _ => provided_build _ _ _ h
  remove := fun id => provided_of_releases (releases_removeSubtree id)
  members := fun h _ => by
    rw [updateList_eq]
    exact provided_of_releases (releases_update (Element.stub_relist _)) _ h
  makeKeys := fun h => h.of_slots rfl rfl
  tell := fun _ h => h.of_slots rfl rfl

/-- **Every operation leaves the registry with what the elements call for**, whether it succeeds or
fails, as long as no container has lost a field. -/
theorem provided_after {op : Operation} (h : t.Provided t.slots.size) (hs : Sound t ∅)
    (ha : t.Arranged) (hop : t.Handling op) : (op.after t).Provided (op.after t).slots.size := by
  have hentry : EntryStable (Provided · t.slots.size) fun _ => True := entryStable_provided
  refine Provided.of_size (n := t.slots.size) ?_
  cases op with
  | set id active => exact hentry.set id active t h
  | setLeaf id raw => exact hentry.setLeaf id raw t h
  | editItem id edit proper =>
    exact of_plan (I := (Provided · t.slots.size)) h fun hid => h.editItem hid hs ha proper
  | extend id raws proper =>
    exact of_plan (I := (Provided · t.slots.size)) h fun hid => h.extend hid hs ha proper
  | unset id => exact provided_of_releases (releases_runUnset (.contents id)) t h
  | removeSubtree id => exact provided_of_releases (releases_removeSubtree id) t h
  | add id key => exact hentry.add id key t h
  | delete id key => exact hentry.delete id key t h
  | _ => exact hop.elim

/-- A tree that has just been instantiated is provided for. -/
theorem provided_instantiate (schema : Blueprint) (spec : ElementSpec) :
    ((Operation.instantiate schema spec).after {}).Provided
      ((Operation.instantiate schema spec).after {}).slots.size :=
  Provided.of_size (n :=
    0) (leads_instantiate entryStable_provided.tell (provided_build schema spec) {}
    provided_empty)

end Tree

end DataTree
