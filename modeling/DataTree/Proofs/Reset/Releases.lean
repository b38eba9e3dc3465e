import DataTree.Proofs.Mirror.Dangling
import DataTree.Proofs.Traffic.Covered

/-!
# DataTree.Proofs.Reset.Releases

What the registry loses when data and elements go.

An element `calls` for the registration of its path and for those of its items.  Dropping a
registration takes one of those that are there, and none if there are none
(`Registry.count_unregisterTarget`).  So wherever elements or items go and nothing comes,
the registry loses exactly what is called for no longer: that is what `Releases` says, and
what removing, clearing and carrying out a plan do (`releases_removeSubtree`,
`releases_clear`, `releases_commit`).
-/

namespace DataTree

open Edit Outcome

namespace Registry

variable {r : Registry} {path other : String} {x y : Target}

/-- All registered targets are proper. -/
def AllProper (r : Registry) : Prop := ∀ {path x}, x ∈ r.targetsAt path → x.Proper

/-- Registering a proper target leaves all of them proper. -/
theorem AllProper.register (h : r.AllProper) (path : String) (hy : y.Proper) :
    (r.register path y).AllProper := by
  intro other x hx
  obtain hx | ⟨-, rfl⟩ := mem_targetsAt_register_iff.1 hx
  · exact h hx
  · exact hy

/-- Dropping a target takes one registration of it away, if there is any, and none of another. -/
theorem count_unregisterTarget (ht : r.Tidy) (hr : r.AllProper) (hx : x.Proper) (hy : y.Proper)
    (path other : String) : (r.unregisterTarget other y).count path x
      = r.count path x - if Registration.hits path x (other, y) then 1 else 0 := by
  have hle := r.count_unregisterTarget_le path other ht.single hx hy
  have hge := count_le_unregisterTarget ht.single hr hy path other x
  omega

end Registry

/-- A hit is a registration of the same owner. -/
theorem Registration.owner_of_hits {path : String} {z : Target} {reg : Registration}
    (h : Registration.hits path z reg = true) : reg.2.owner = z.owner := by
  simp only [hits, Bool.and_eq_true] at h
  exact Target.owner_eq_of_same h.2

/-- Registrations on behalf of others are not hit. -/
theorem Registration.countP_hits_of_owner {regs : List Registration} {id : ElementId} {z : Target}
    (hown : ∀ reg ∈ regs, reg.2.owner = id) (hz : z.owner ≠ id) (path : String) :
    regs.countP (Registration.hits path z) = 0 :=
  List.countP_eq_zero.2 fun reg hreg hhit => hz ((owner_of_hits hhit).symm.trans (hown reg hreg))

namespace Element

variable {e e' : Element}

/-- All registrations that an element calls for. -/
def calls (e : Element) : List Registration := e.standing ++ e.backing e.content.members

@[simp] theorem backing_nil (e : Element) : e.backing [] = [] := by
  unfold backing
  split <;> rfl

/-- Elements with the same stub call for the same. -/
theorem calls_of_stub (h : e'.stub = e.stub) : e'.calls = e.calls := by
  obtain ⟨hid, hpath, hreg, -, hcustom⟩ := stub_eq_iff.1 h
  rw [calls, calls, standing_of_stub h, backing_congr hid hpath hreg, Content.members_eq,
    Content.members_eq, items_of_stub h, hcustom]

/-- An element stands for registrations of its own. -/
theorem owner_of_mem_standing {reg : Registration} (h : reg ∈ e.standing) : reg.2.owner = e.id := by
  unfold standing at h
  split at h
  · rw [List.mem_singleton.1 h]
    rfl
  · cases h

/-- Its items back registrations of its own. -/
theorem owner_of_mem_backing {reg : Registration} {vs : List Value} (h : reg ∈ e.backing vs) :
    reg.2.owner = e.id := by
  unfold backing at h
  split at h
  · obtain ⟨v, -, rfl⟩ := List.mem_map.1 h
    rfl
  · cases h

/-- It calls for registrations of its own. -/
theorem owner_of_mem_calls {reg : Registration} (h : reg ∈ e.calls) : reg.2.owner = e.id :=
  (List.mem_append.1 h).elim owner_of_mem_standing owner_of_mem_backing

end Element

namespace Tree

variable {t t' : Tree} {id x : ElementId} {e : Element} {n : Nat}

/-- What an element calls for; nothing if it is gone. -/
def calls (t : Tree) (x : ElementId) : List Registration :=
  ((t.element? x).map Element.calls).getD []

/-- What an element that is there calls for. -/
theorem calls_of_some (he : t.element? x = some e) : t.calls x = e.calls := by
  rw [calls, he]
  rfl

theorem calls_of_none (h : t.element? x = none) : t.calls x = [] := by
  rw [calls, h]
  rfl

/-- An element with the same stub calls for the same in the tree. -/
theorem calls_of_stub (h : (t'.element? x).map Element.stub = (t.element? x).map Element.stub) :
    t'.calls x = t.calls x := by
  unfold calls
  cases he : t.element? x <;> cases he' : t'.element? x <;> rw [he, he'] at h
  · cases h
  · cases h
  · rw [Option.map_some, Option.map_some, Element.calls_of_stub (Option.some.inj h)]

/-- The registry and the items are in order, and all registered targets are proper. -/
structure Clean (t : Tree) (n : Nat) : Prop extends Ready t n where
  targets : t.registry.AllProper

/-- A tree is clean by its slots and its registry. -/
theorem Clean.of_slots (h : t.Clean n) (hs : t'.slots = t.slots) (hr : t'.registry = t.registry) :
    t'.Clean n :=
  ⟨h.toReady.of_slots hs hr, hr ▸ h.targets⟩

/-- The items of an element in order are proper. -/
theorem Ready.proper_of_mem (h : t.Ready n) (he : t.element? id = some e) {v : Value}
    (hv : v ∈ e.content.members) : v.Proper := (h.fitted he).members v hv

/-- The elements call for no more than before, and what is called for no longer is what the
registry has lost, as far as it was there. -/
def Releases (t t' : Tree) : Prop :=
  ∀ path {z : Target}, z.Proper →
    (t'.calls z.owner).countP (Registration.hits path z) ≤
      (t.calls z.owner).countP (Registration.hits path z) ∧
      t'.registry.count path z = t.registry.count path z
        - ((t.calls z.owner).countP (Registration.hits path z)
          - (t'.calls z.owner).countP (Registration.hits path z))

instance : IsPreorder Tree Releases where
  refl _ path z _ := ⟨Nat.le_refl _, by omega⟩
  trans _ _ _ h h' path z hz := by
    obtain ⟨hle, hcount⟩ := h path hz
    obtain ⟨hle', hcount'⟩ := h' path hz
    exact ⟨Nat.le_trans hle' hle, by omega⟩

/-- Nothing is released where the stubs stay. -/
theorem releases_of_stub (hr : t'.registry = t.registry)
    (h : ∀ x, (t'.element? x).map Element.stub = (t.element? x).map Element.stub) :
    t.Releases t' := by
  intro path z _
  rw [calls_of_stub (h z.owner), hr]
  exact ⟨Nat.le_refl _, by omega⟩

/-- Dropping what one element calls for no longer. -/
theorem releases_of_dropped (regs : List Registration) (hown : ∀ reg ∈ regs, reg.2.owner = id)
    (hcount : ∀ path {z : Target}, z.Proper → t'.registry.count path z
      = t.registry.count path z - regs.countP (Registration.hits path z))
    (hself : (t.calls id).Perm (regs ++ t'.calls id))
    (hother : ∀ x, x ≠ id → t'.calls x = t.calls x) : t.Releases t' := by
  intro path z hz
  rw [hcount path hz]
  by_cases hx : z.owner = id
  · have hsum := hself.countP_eq (Registration.hits path z)
    rw [List.countP_append] at hsum
    rw [hx]
    omega
  · rw [hother _ hx, Registration.countP_hits_of_owner hown hx]
    omega

/-! ## Changing elements -/

/-- A change that does not concern registrations. -/
theorem Clean.modifyElement (h : t.Clean n) {f : Element → Element}
    (hf : ∀ e, t.element? id = some e → (f e).stub = e.stub) :
    (t.modifyElement id f).Clean n ∧ t.Releases (t.modifyElement id f) := by
  refine ⟨⟨⟨?_, ?_⟩, h.targets⟩, releases_of_stub rfl fun x =>
    map_element?_modifyElement fun _ => hf⟩
  · refine h.accounts.modifyElement fun e he => ?_
    obtain ⟨hid, hpath, hreg, -, -⟩ := Element.stub_eq_iff.1 (hf e he)
    exact ⟨hid, hpath, hreg⟩
  · exact fitted_modifyElement h.fitted fun e he => Element.proper_of_stub (hf e he) (h.fitted he)

/-- A change of an element that keeps its stub releases nothing. -/
theorem releases_update {f : Element → Element} (h : ∀ e, (f e).stub = e.stub) :
    Leads (Given (Clean · n) Releases) (update id f) :=
  leads_update fun _ _ _ ht => ht.modifyElement fun e _ => h e

/-- Detaching an element releases nothing. -/
theorem Clean.detach (h : t.Clean n) (e : Element) :
    (t.detach e).Clean n ∧ t.Releases (t.detach e) := by
  unfold Tree.detach
  split
  · exact h.modifyElement fun p _ => p.stub_detach e.name e.id
  · exact ⟨h, refl_of Releases t⟩

/-! ## Dropping -/

/-- A registration that goes, or that was none to begin with. -/
theorem count_unregister (ht : t.registry.Tidy) (hr : t.registry.AllProper) (e : Element)
    (other : String) {y : Target} (hy : y.Proper) :
    (t.unregister e other y).registry.Tidy ∧ (t.unregister e other y).registry.AllProper ∧
      ∀ path {z : Target}, z.Proper → (t.unregister e other y).registry.count path z
        = t.registry.count path z
          - (if e.registers then [(other, y)] else []).countP (Registration.hits path z) := by
  rw [registry_unregister]
  split
  · refine ⟨ht.unregister _ _, fun hx => hr (ht.mem_of_mem_unregister hx), fun path z hz => ?_⟩
    rw [List.countP_singleton]
    exact Registry.count_unregisterTarget ht hr hz hy path other
  · exact ⟨ht, hr, fun _ _ _ => by simp⟩

/-- Items go one after another. -/
theorem count_unregisterMembers (ht : t.registry.Tidy) (hr : t.registry.AllProper) (e : Element)
    (items : List Value) (hitems : ∀ v ∈ items, v.Proper) :
    let t' := items.foldl (fun t v => t.unregisterMember e v) t
    t'.registry.Tidy ∧ t'.registry.AllProper ∧ ∀ path {z : Target}, z.Proper →
      t'.registry.count path z
        = t.registry.count path z - (e.backing items).countP (Registration.hits path z) := by
  induction items generalizing t with
  | nil => exact ⟨ht, hr, fun path z _ => by simp⟩
  | cons v items ih =>
    have hv : (Target.member e.id v).Proper := hitems v List.mem_cons_self
    obtain ⟨ht₁, hr₁, hone⟩ := count_unregister ht hr e (e.memberPath v) hv
    obtain ⟨ht₂, hr₂, hrest⟩ := ih ht₁ hr₁ fun w hw => hitems w (List.mem_cons_of_mem v hw)
    refine ⟨ht₂, hr₂, fun path z hz => ?_⟩
    have hsum : e.backing (v :: items)
        = (if e.registers then [(e.memberPath v, .member e.id v)] else []) ++ e.backing items := by
      unfold Element.backing
      split <;> rfl
    have hone := hone path hz
    have hrest := hrest path hz
    rw [hsum, List.countP_append, List.foldl_cons, unregisterMember]
    omega

/-- Dropping an element releases what it calls for. -/
theorem Clean.drop (h : t.Clean n) (id : ElementId) :
    (t.drop id).Clean n ∧ t.Releases (t.drop id) := by
  have hready := (deregisters_drop (x := id) h.toReady id).1
  cases he : t.element? id with
  | none =>
    rw [drop_of_none he]
    exact ⟨h, refl_of Releases t⟩
  | some e =>
    have hdrop := drop_of_some he
    have hid := h.accounts.id_eq he
    obtain ⟨ht₁, hr₁, hitems⟩ :=
      count_unregisterMembers (t := t.vacate id) h.accounts.tidy h.targets e
      e.content.members fun v hv => h.proper_of_mem he hv
    generalize e.content.members.foldl (fun t v => t.unregisterMember e v) (t.vacate id) = t₁ at *
    obtain ⟨-, hr₂, hself⟩ := count_unregister ht₁ hr₁ e e.path (y := .element id) trivial
    refine ⟨⟨hready, hdrop ▸ hr₂⟩, ?_⟩
    refine releases_of_dropped e.calls
      (fun reg hreg => (Element.owner_of_mem_calls hreg).trans hid)
      (fun path z hz => ?_) ?_ fun x hx => ?_
    · have hstanding : e.standing = if e.registers then [(e.path, .element id)] else [] := by
        rw [Element.standing, hid]
      rw [hdrop, hself path hz, hitems path hz, registry_vacate, Element.calls,
        List.countP_append, hstanding]
      omega
    · rw [calls_of_some he, calls_of_none (by rw [element?_drop, if_pos rfl]), List.append_nil]
    · exact calls_of_stub (by rw [element?_drop, if_neg hx])

/-- Removing a subtree releases what its elements call for. -/
theorem releases_removeSubtree (id : ElementId) :
    Leads (Given (Clean · n) Releases) (removeSubtree id) := by
  unfold removeSubtree get
  refine (leads_reading _).bind fun doomed => (leads_reading _).bind fun e => ?_
  refine leads_changing fun t ht => ?_
  obtain ⟨hclean, hreleases⟩ := ht.detach e
  generalize t.detach e = t' at hclean hreleases
  induction doomed generalizing t' with
  | nil => exact ⟨hclean, hreleases⟩
  | cons id doomed ih =>
    obtain ⟨hclean', hreleases'⟩ := hclean.drop id
    exact ih (t'.drop id) hclean' (trans_of Releases hreleases hreleases')

/-! ## Unsetting -/

/-- Clearing drops the items. -/
theorem Clean.clears (h : t.Clean n) (he : t.element? id = some e) {vs : List Value} {c : Content}
    (hclear : e.content.clear = .ok (vs, c)) :
    let t' := e.content.members.foldl (fun t item => t.unregisterMember e item) (t.withContent id c)
    t'.Clean n ∧ t.Releases t' := by
  have hready := (deregisters_cleared (x := id) h.toReady he hclear).1
  obtain ⟨-, hr, hitems⟩ :=
    count_unregisterMembers (t := t.withContent id c) h.accounts.tidy h.targets e
    e.content.members fun v hv => h.proper_of_mem he hv
  have hslots := (foldl_unregisterMember e e.content.members (t.withContent id c)).1
  refine ⟨⟨hready, hr⟩, releases_of_dropped (e.backing e.content.members)
    (fun reg hreg => (Element.owner_of_mem_backing hreg).trans (h.accounts.id_eq he))
    (fun path z hz => hitems path hz) ?_ fun x hx => ?_⟩
  · have hcalls : { e with content := c }.calls = e.standing := by
      rw [Element.calls, Content.members_of_clear hclear]
      show e.standing ++ e.backing [] = _
      rw [Element.backing_nil, List.append_nil]
    rw [calls_of_some he, calls_of_some
      ((element?_congr hslots id).trans (element?_modifyElement_self he)), hcalls]
    exact List.perm_append_comm
  · exact calls_of_stub (by rw [element?_congr hslots, withContent,
      element?_modifyElement_of_ne hx])

/-- Clearing releases what the items and entries call for. -/
theorem releases_clear (id : ElementId) : Leads (Given (Clean · n) Releases) (clear id) := by
  unfold clear get
  refine leads_reading_bind fun t e he => ?_
  rw [element_eq_ok_iff] at he
  split
  · next l hl =>
    refine rel_bind (fun ht => ?_) fun _ t' _ =>
      leads_forM (fun entry _ => releases_removeSubtree entry) t'
    rw [on_update, element, he]
    refine ht.modifyElement fun e' he' => ?_
    obtain rfl : e = e' := Option.some.inj (he.symm.trans he')
    exact Element.stub_eq_iff.2 ⟨rfl, rfl, rfl, by rw [hl]; rfl, by rw [hl]; rfl⟩
  · refine rel_bind (leads_ofExcept _ t) fun r t₀ hr ht => ?_
    obtain ⟨vs, c⟩ := r
    rw [on_ofExcept, Prod.mk.injEq] at hr
    obtain ⟨hclear, rfl⟩ := hr
    rw [on_bind, on_update, element, he]
    exact ht.clears he hclear

/-- So does a hook. -/
theorem releases_runUnset (hook : Unset) : Leads (Given (Clean · n) Releases) (runUnset hook) := by
  cases hook with
  | contents id =>
    exact (leads_reading _).bind fun _ => leads_forM fun holder _ => releases_clear holder
  | subtree id => exact releases_removeSubtree id

theorem releases_mark (id : ElementId) (changed : Bool) :
    Leads (Given (Clean · n) Releases) (update id fun e => { e with changed }) :=
  releases_update fun _ => rfl

/-- Carrying out a plan releases what its hooks do. -/
theorem releases_commit (p : Plan) : Leads (Given (Clean · n) Releases) (commit p) :=
  (leads_forM fun hook _ => releases_runUnset hook).bind fun _ =>
    leads_forM fun id _ => releases_mark id true

end Tree

end DataTree
