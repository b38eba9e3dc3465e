import DataTree.Proofs.Accept.Session
import DataTree.Proofs.Reference.Acyclic
import DataTree.Proofs.Reset.Upkeep
import DataTree.Proofs.Tracking.Reading

/-!
# DataTree.Proofs.Reset.Session

Unsetting takes an element back to where it began.

What is left of the element holds no data then, and the registry has lost what was
registered for the items and the entries that are gone.  So the element reads as it did
when it had just been built (`unset_resets`): both trees have the same children below it,
and the same defaults at its leaves (`Newborn.snapshotFrom_eq`).
-/

namespace DataTree

open Edit Outcome

namespace Tree

variable {t t' t₀ : Tree} {pending : Set ElementId} {x y : ElementId} {e e' : Element}
  {schema : Blueprint} {spec : ElementSpec} {n : Nat}

/-! ## Reading what is empty -/

/-- The hooks of a container tell its children. -/
theorem ArrangedAt.children_eq (h : t.ArrangedAt x) (h' : t'.ArrangedAt x)
    (he : t.element? x = some e) (he' : t'.element? x = some e') (hb : e'.bare = e.bare) :
    e'.children = e.children := by
  have hinjective : Function.Injective fun m : String × ElementId => (m.1, Unset.contents m.2) := by
    intro m m' heq
    simp only [Prod.mk.injEq, Unset.contents.injEq] at heq
    exact Prod.ext heq.1 heq.2
  have hunsetters : e'.unsetters = e.unsetters := congrArg (·.unsetters) hb
  rw [h'.hooks he', h.hooks he] at hunsetters
  exact List.map_injective_iff.2 hinjective hunsetters

/-- Without data and without children an element reads by itself. -/
theorem exists_snapshotFrom_of_blank (hblank : e.content.holdsData = false)
    (hdecl : e.content.IsDeclared) (hne : e.content ≠ .container) :
    ∃ v, ∀ {t : Tree} {x : ElementId} {e' : Element} {fuel : Nat}, t.element? x = some e' →
      e'.content = e.content → e'.default = e.default →
      t.snapshotFrom (fuel + 1) false x = .ok v := by
  cases hc : e.content with
  | container => exact absurd hc hne
  | list l =>
    have hmembers : l.members = [] := by
      rw [hc] at hblank
      exact Content.links_eq_nil (c := .list l) hblank
    refine ⟨.map [], fun he' hcontent _ => ?_⟩
    rw [snapshotFrom_list he' hcontent, hmembers]
    rfl
  | leaf slot =>
    have hnone : slot.value = none := by
      rw [hc] at hblank
      exact Option.not_isSome_iff_eq_none.1 (Bool.eq_false_iff.1 hblank)
    refine ⟨e.default, fun he' hcontent hdefault => ?_⟩
    rw [snapshotFrom, element_eq_ok_iff.2 he']
    simp only [bind, Except.bind, hcontent, hnone, hdefault]
    rfl
  | leafList l =>
    refine ⟨(Content.leafList l).snapshot, fun he' hcontent _ => ?_⟩
    rw [snapshotFrom, element_eq_ok_iff.2 he']
    simp only [bind, Except.bind, hcontent]
    rfl
  | custom c => exact absurd hdecl (by simp [hc, Content.IsDeclared])

/-- **An element without data reads as it did at first**, as long as it has lost no fields. -/
theorem Newborn.snapshotFrom_eq (h : Newborn n t₀) (hl : t₀.Lasts t) (hs : Sound t pending)
    (ha : t.Arranged)
    {fuel fuel' : Nat} (hn : n ≤ x.index) (hlt : x.index < t₀.slots.size)
    (he : t.element? x = some e)
    (hempty : ∀ {y}, t.Within x y → ¬ t.Laden y) (hfuel : t.slots.size ≤ x.index + fuel)
    (hfuel' : t₀.slots.size ≤ x.index + fuel') :
    ∃ v, t.snapshotFrom fuel false x = .ok v ∧ t₀.snapshotFrom fuel' false x = .ok v := by
  obtain ⟨pending₀, hs₀⟩ := h.sound
  -- Reading goes down along the children, which are in later slots of both trees.
  induction fuel generalizing x e fuel' with
  | zero => exact absurd (index_lt_of_element? he) (Nat.not_lt.2 hfuel)
  | succ fuel ih =>
    obtain ⟨e₀, he₀, hb⟩ := hl.element hlt he
    obtain ⟨fuel', rfl⟩ : ∃ k, fuel' = k + 1 := ⟨fuel' - 1, by omega⟩
    have hblank : e.content.holdsData = false := by
      rw [← Bool.not_eq_true]
      exact fun hdata => hempty .refl ⟨e, he, hdata⟩
    have hcontent : e.content = e₀.content := by
      have hbare := Element.content_of_bare hb
      rwa [Content.bare_eq_self (ha.declared he) hblank,
        Content.bare_eq_self ((h.arranged hn).declared he₀) (h.blank hn he₀)] at hbare
    have hdefault : e.default = e₀.default := congrArg (·.default) hb
    by_cases hc : e.content = .container
    · have hchildren := (h.arranged hn).children_eq (ha x) he₀ he hb
      have hread : ∀ m ∈ e.children, ∃ v, t.readNamed fuel false m = .ok v ∧
          t₀.readNamed fuel' false m = .ok v := by
        intro m hm
        obtain ⟨-, hxm, ce, hce, -⟩ := hs.of_above ⟨e, he, Element.mem_below_of_child hm⟩
        obtain ⟨-, -, ce₀, hce₀, -⟩ :=
          hs₀.of_above ⟨e₀, he₀, Element.mem_below_of_child (hchildren ▸ hm)⟩
        have hbelow : ∀ {y}, t.Within m.2 y → ¬ t.Laden y := fun hw =>
          hempty (Relation.ReflTransGen.head ⟨e, m.1, he, hm⟩ hw)
        have hfuel'ₘ : t₀.slots.size ≤ m.2.index + fuel' := by omega
        obtain ⟨v, hv, hv₀⟩ :=
          ih (Nat.le_trans hn (Nat.le_of_lt hxm)) (index_lt_of_element? hce₀) hce hbelow
          (by omega) hfuel'ₘ
        exact ⟨(m.1, v), by rw [readNamed, hv]; rfl, by rw [readNamed, hv₀]; rfl⟩
      obtain ⟨vs, hvs⟩ := exists_mapM_eq_ok fun m hm => (hread m hm).imp fun _ hv => hv.1
      have hsame : e.children.mapM (t₀.readNamed fuel' false) =
          e.children.mapM (t.readNamed fuel false) :=
        mapM_congr fun m hm => by
          obtain ⟨v, hv, hv₀⟩ := hread m hm
          rw [hv, hv₀]
      refine ⟨.map vs, ?_, ?_⟩
      · rw [snapshotFrom_container he hc, shownChildren_false]
        exact congrArg (Except.map Value.map) hvs
      · rw [snapshotFrom_container he₀ (hcontent ▸ hc), shownChildren_false, ← hchildren]
        exact congrArg (Except.map Value.map) (hsame.trans hvs)
    · obtain ⟨v, hv⟩ := exists_snapshotFrom_of_blank hblank (ha.declared he) hc
      exact ⟨v, hv he rfl rfl, hv he₀ hcontent.symm hdefault.symm⟩

/-! ## Unsetting -/

/-- What unsetting an element does: what remains of it holds no data and is marked as it was,
everything else is what it was, and the registry has lost what was registered for its items, and for
what was below its lists. -/
structure Resets (x : ElementId) (t t' : Tree) : Prop extends Unsets x t t' where
  leaf : ∀ {y e' slot}, t'.Under x y → t'.element? y = some e' → e'.content = .leaf slot →
    slot.value = none ∧ t'.value y = .ok e'.default
  leafList : ∀ {y e' l}, t'.Under x y → t'.element? y = some e' → e'.content = .leafList l →
    l.items = []
  list : ∀ {y e' l}, t'.Under x y → t'.element? y = some e' → e'.content = .list l → l.members = []
  marked : ∀ {y e'}, t'.element? y = some e' → ∃ e, t.element? y = some e ∧ e'.changed = e.changed
  kept : ∀ path {z : Target}, z.Proper → ¬ t.Under x z.owner →
    t.registry.count path z = t'.registry.count path z
  cleared : ∀ path {z : Target} {e}, z.Proper → t.Within x z.owner → t.element? z.owner = some e →
    t.registry.count path z
      = t'.registry.count path z + (e.backing e.content.members).countP (Registration.hits path z)
  dropped : ∀ path {z : Target} {e}, z.Proper → t.Under x z.owner → ¬ t.Within x z.owner →
    t.element? z.owner = some e →
    t.registry.count path z = t'.registry.count path z + e.calls.countP (Registration.hits path z)

/-- What is still below an element that was unset holds no data. -/
theorem Unsets.blank (h : Unsets x t t') (hs : t.Shrinks t') (hu : t'.Under x y)
    (he' : t'.element? y = some e') : e'.content.holdsData = false := by
  by_cases hw : t.Within x y
  · obtain ⟨e, -, rfl⟩ := Option.map_eq_some_iff.1 ((h.within hw).symm.trans he')
    exact Content.holdsData_bare _
  · rw [h.gone (hs.under hu) hw] at he'
    cases he'

/-- What was called for and is not any more is what the registry has lost. -/
theorem Provided.count_eq (h : t.Provided n) (hr : t.Releases t') (path : String) {z : Target}
    (hz : z.Proper) :
    t.registry.count path z + (t'.calls z.owner).countP (Registration.hits path z)
      = t'.registry.count path z + (t.calls z.owner).countP (Registration.hits path z) := by
  obtain ⟨hle, hcount⟩ := hr path hz
  have hbefore := h.affords path hz
  rw [List.countP_nil] at hbefore
  omega

theorem Maintained.resets (h : t.Maintained) (he : t.element? x = some e) :
    ∃ t', (unset x).on t = (.ok (), t') ∧ Sound t' ∅ ∧ t.Shrinks t' ∧ Resets x t t' := by
  have hd := h.orderly.arranged.declared
  obtain ⟨⟨⟩, t', hrun, hun⟩ := (h.orderly.sound.unset hd he).exists_ok
  have hs := shrinks_unset x t
  have hs' := sound_unset ∅ x t h.orderly.sound
  have hr : t.Releases ((unset x).on t).2 :=
    (releases_runUnset (.contents x) t h.provided.toClean).2
  rw [hrun] at hs hs' hr
  simp only at hr
  have hcount := fun path {z : Target} (hz : z.Proper) => h.provided.count_eq hr path hz
  refine ⟨t', hrun, hs', hs, ?_⟩
  constructor
  case toUnsets => exact hun
  case leaf =>
    intro y e' slot hu he' hslot
    have hblank := hun.blank hs hu he'
    rw [hslot] at hblank
    have hnone : slot.value = none := Option.not_isSome_iff_eq_none.1 (Bool.eq_false_iff.1 hblank)
    exact ⟨hnone, value_of_unset he' hslot hnone⟩
  case leafList =>
    intro y e' l hu he' hl
    have hblank := hun.blank hs hu he'
    rw [hl] at hblank
    exact Content.members_eq_nil (c := .leafList l) hblank
  case list =>
    intro y e' l hu he' hl
    have hblank := hun.blank hs hu he'
    rw [hl] at hblank
    exact Content.links_eq_nil (c := .list l) hblank
  case marked =>
    intro y e' he'
    by_cases hu : t.Under x y
    · by_cases hw : t.Within x y
      · obtain ⟨e, he, rfl⟩ := Option.map_eq_some_iff.1 ((hun.within hw).symm.trans he')
        exact ⟨e, he, rfl⟩
      · rw [hun.gone hu hw] at he'
        cases he'
    · exact ⟨e', hun.stays hu ▸ he', rfl⟩
  case kept =>
    intro path z hz hu
    have hsame : t'.calls z.owner = t.calls z.owner := calls_of_stub (by rw [hun.stays hu])
    have hsum := hcount path hz
    rw [hsame] at hsum
    omega
  case cleared =>
    intro path z ze hz hw hze
    have hafter : t'.calls z.owner = ze.standing := by
      have hbare : ze.emptied.content.members = [] :=
        Content.members_eq_nil (Content.holdsData_bare ze.content)
      rw [calls_of_some (e := ze.emptied) (by rw [hun.within hw, hze]; rfl), Element.calls, hbare,
        Element.backing_nil, List.append_nil]
      rfl
    have hsum := hcount path hz
    rw [hafter, calls_of_some hze, Element.calls, List.countP_append] at hsum
    omega
  case dropped =>
    intro path z ze hz hu hw hze
    have hsum := hcount path hz
    rw [calls_of_none (hun.gone hu hw), calls_of_some hze, List.countP_nil] at hsum
    exact hsum

/-- **Unsetting restores the beginning**: in every tree of a schema that has lost no fields it
succeeds, empties what remains of the element and drops what was below its lists, with their
registrations and nothing else; then the element reads as it did in the tree in which it had just
been built, and unsetting it once more changes nothing. -/
theorem unset_resets (hroot : spec.parent = none) (h : Matures schema spec t)
    (hx : (t.element? x).isSome) :
    ∃ t', (unset x).on t = (.ok (), t') ∧ Resets x t t' ∧
      (∃ v, t'.snapshot false x = .ok v ∧ (∃ t₀, Born schema spec x t₀ t) ∧
        ∀ {t₀}, Born schema spec x t₀ t → t₀.snapshot false x = .ok v) ∧
      (unset x).on t' = (.ok (), t') := by
  obtain ⟨e, he⟩ := Option.isSome_iff_exists.1 hx
  have hm := maintained_of_matures hroot h
  obtain ⟨t', hrun, hs', hs, hresets⟩ := hm.resets he
  have he' : t'.element? x = some e.emptied := by
    rw [hresets.within .refl, he]
    rfl
  have harranged : t'.Arranged := by
    have ho : ((unset x).on t).2.Orderly False ∅ := orderly_unset x t hm.orderly
    rw [hrun] at ho
    exact ho.arranged
  have hread : ∀ {t₀}, Born schema spec x t₀ t →
      ∃ v, t'.snapshot false x = .ok v ∧ t₀.snapshot false x = .ok v := by
    intro t₀ hb
    obtain ⟨hnew, hlt, hl⟩ := hb.lasts hroot
    refine hnew.snapshotFrom_eq (trans_of Lasts hl hs.lasts) hs' harranged (Nat.le_refl _) hlt
      he' (fun hw => ?_) (by omega) (by omega)
    rintro ⟨ye, hye, hdata⟩
    rw [hresets.blank hs hw.under hye] at hdata
    cases hdata
  obtain ⟨t₀, hb⟩ := exists_born hroot h hx
  obtain ⟨v, hv, -⟩ := hread hb
  refine ⟨t', hrun, hresets, ⟨v, hv, ⟨t₀, hb⟩, fun hb' => ?_⟩, ?_⟩
  · obtain ⟨v', hv', hv₀⟩ := hread hb'
    rw [hv₀, ← hv', hv]
  · exact hs'.on_unset_of_not_holdsData harranged.declared he' (hresets.not_holdsData hs')

/-! ## A session -/

/-- A depot with a label, tags and crates. -/
def depot : Blueprint :=
  .container
    [⟨"label", none, .leaf .string (.text "none")⟩,
      ⟨"tag", none, .leafList ⟨[.text {}]⟩⟩,
      ⟨"crate", none, .list ⟨⟨["name"]⟩, [⟨"name", none, .leaf .string⟩], false⟩⟩]

/-- A depot with a label, a tag and a crate. -/
def stocked : Tree :=
  let made := (Operation.instantiate depot { name := "depot", registers := true }).after {}
  let named := (Operation.setLeaf ⟨1⟩ (.text "north")).after made
  let marked := (Operation.editItem ⟨2⟩ (.append (.text "dry")) trivial).after named
  (Operation.add ⟨3⟩ (some "a")).after marked

theorem matures_stocked : Matures depot { name := "depot", registers := true } stocked := by
  have hmade : Matures depot { name := "depot", registers := true } _ := .refl
  have hnamed := hmade.andThen (.setLeaf ⟨1⟩ (.text "north")) trivial
  have hmarked := hnamed.andThen (.editItem ⟨2⟩ (.append (.text "dry")) trivial) trivial
  exact hmarked.andThen (.add ⟨3⟩ (some "a")) trivial

/-- The depot reads as it did when it was new, and its tag and its crate are registered no more. -/
theorem unset_resets_stocked :
    ∃ t', (unset ⟨0⟩).on stocked = (.ok (), t') ∧
      (∃ v t₀, Born depot { name := "depot", registers := true } ⟨0⟩ t₀ stocked ∧
        t₀.snapshot false ⟨0⟩ = .ok v ∧ t'.snapshot false ⟨0⟩ = .ok v) ∧
      stocked.registry.entries.map Prod.fst
        = ["/", "/label", "/tag", "/crate", "/tag/dry", "/crate[name=a]", "/crate[name=a]/name"] ∧
      t'.registry.entries.map Prod.fst = ["/", "/label", "/tag", "/crate"] ∧
      (unset ⟨0⟩).on t' = (.ok (), t') := by
  obtain ⟨t', hrun, -, ⟨v, hv, ⟨t₀, hb⟩, hall⟩, hagain⟩ :=
    unset_resets rfl matures_stocked (x := ⟨0⟩) (by decide +kernel)
  refine ⟨t', hrun, ⟨v, t₀, hb, hall hb, hv⟩, by decide +kernel, ?_, hagain⟩
  rw [← congrArg (fun r => r.2.registry.entries.map Prod.fst) hrun]
  decide +kernel

end Tree

end DataTree
