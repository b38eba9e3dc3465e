import DataTree.Proofs.Reference.Chain
import DataTree.Proofs.Reference.Name
import DataTree.Proofs.Reference.Settable
import DataTree.Proofs.Tracking.Tracked

/-!
# DataTree.Proofs.Reference.Session

Writing through a reference is writing its target.

A value for a reference whose path leads to a leaf alone is assigned to that leaf, and
then the reference becomes an alias of it (`on_setLeaf_of_alias`).  In a session without
choices this is so for every reference whose last segment is the target's name, through
chains of any length, as long as they come to an end.  The exception are paths that end
in a slash, which lead to the same leaf and yet name none.
-/

namespace DataTree.Tree

open Edit Outcome

variable {t : Tree} {a z : ElementId} {e ze : Element} {slot : LeafSlot} {r : ReferenceType}
  {raw : Value} {chain ids : List ElementId} {path : String} {schema : Blueprint}
  {spec : ElementSpec}

/-! ## Becoming an alias -/

/-- The tree with elements marked as changed. -/
def marked (t : Tree) (ids : List ElementId) : Tree :=
  ids.foldl (fun t id => t.modifyElement id fun e => { e with changed := true }) t

/-- The tree with a leaf that is an alias of what a path leads to. -/
def aliasing (t : Tree) (a : ElementId) (path : String) : Tree :=
  t.modifyElement a (store (some (.reference (.pointer path))))

theorem on_markChanged (h : ∀ x ∈ ids, (t.element? x).isSome) :
    (markChanged ids).on t = (.ok (), t.marked ids) := by
  induction ids generalizing t with
  | nil => rfl
  | cons id ids ih =>
    obtain ⟨e, he⟩ := Option.isSome_iff_exists.1 (h id List.mem_cons_self)
    have hrest : ∀ x ∈ ids, ((t.modifyElement id fun e =>
        { e with changed := true }).element? x).isSome := by
      intro x hx
      rw [isSome_element?_modifyElement]
      exact h x (List.mem_cons_of_mem id hx)
    show (update id _ >>= fun _ => markChanged ids).on t = _
    rw [on_bind, on_update, element_eq_ok_iff.2 he]
    exact ih hrest

/-- What an alias leads to, what it held, and its marks. -/
theorem held_marked_aliasing (he : t.element? a = some e) (hslot : e.content = .leaf slot)
    (hlive : ∀ x ∈ chain, (t.element? x).isSome) :
    ((t.aliasing a path).marked chain).held a
      = some (.leaf { slot with value := some (.reference (.pointer path)) }) := by
  have hmarked := sameData_markChanged chain (t.aliasing a path) a
  have hlive' : ∀ x ∈ chain, ((t.aliasing a path).element? x).isSome := fun x hx => by
    rw [aliasing, isSome_element?_modifyElement]
    exact hlive x hx
  rw [on_markChanged hlive'] at hmarked
  rw [hmarked, held, aliasing, element?_modifyElement_self he, Option.map_some, store, hslot]

theorem on_setLeaf_eq (t : Tree) (id : ElementId) (raw : Value) :
    (setLeaf id raw).on t = (assignFrom (t.slots.size + 1) id raw).on t := by
  rw [setLeaf, on_bind, on_reading]

/-- Without cases, assigning to a reference resolves it, stores what that gives and marks. -/
theorem on_setLeaf_of_reference {p : Plan} (hfree : t.Caseless) (hp : t.plan a none = .ok p)
    (he : t.element? a = some e) (hslot : e.content = .leaf slot) (htype : slot.type = .reference r)
    (raw : Value) :
    (setLeaf a raw).on t = (resolveWith (assignFrom t.slots.size) r a raw >>= fun v => do
      update a (store (some (.reference v)))
      markChanged p.marks).on t := by
  have htype' : leafType e = .ok (.reference r) := leafType_eq_ok_iff.2 ⟨slot, hslot, htype⟩
  rw [on_setLeaf_eq, assignFrom]
  simp only [on_bind, on_reading, hp, on_get, element_eq_ok_iff.2 he, htype', on_ofExcept,
    constructOn, hfree.unsets_eq_nil hp]
  generalize (resolveWith (assignFrom t.slots.size) r a raw).on t = result
  obtain ⟨err | v, t₁⟩ := result <;> rfl

/-- A reference leads on to its target. -/
theorem mem_leadsOn_of_reference (he : t.element? a = some e) (hslot : e.content = .leaf slot)
    (htype : slot.type = .reference r) (hz : t.targetsFrom e r.path = [.element z])
    (hze : t.element? z = some ze) (hleaf : ze.isLeaf = true) : z ∈ t.leadsOn a := by
  refine (mem_leadsOn_of_leaf he hslot).2 (.inr (.inr ⟨r, ?_, ?_⟩))
  · rw [htype]
    exact List.mem_cons_self
  · exact mem_refersTo_iff.2 ⟨z, ze, hz, hze, hleaf, .inl rfl⟩

/-- Where the parent of the target assigns to it, resolving a reference assigns to the target. -/
theorem on_resolveWith_eq_setLeaf (hfree : t.Caseless) (hacyclic : t.Acyclic)
    (he : t.element? a = some e) (hslot : e.content = .leaf slot) (htype : slot.type = .reference r)
    (hraw : raw.isEmpty = false) (hz : t.targetsFrom e r.path = [.element z])
    (hze : t.element? z = some ze) (hleaf : ze.isLeaf = true)
    (hself : t.beside? ze r.leafName = some z) :
    (resolveWith (assignFrom t.slots.size) r a raw).on t
      = (setLeaf z raw >>= fun _ => pure (.pointer r.path)).on t := by
  have hends : t.Ends t.slots.size z :=
    hacyclic.ends he z (mem_leadsOn_of_reference he hslot htype hz hze hleaf)
  rw [on_resolveWith_of_alias he hz hze hleaf, if_neg (by simp [hraw])]
  refine on_bind_congr ?_ fun _ _ _ => rfl
  obtain ⟨y, hy, hassign⟩ | ⟨err, hnone, -⟩ := on_writeThrough_cases t ze r.leafName raw
  · obtain rfl : z = y := Option.some.inj (hself.symm.trans hy)
    rw [hassign, hends.assignFrom_succ hfree.pliable, on_setLeaf_eq]
  · rw [hself] at hnone
    cases hnone

/-- **Writing through**: an assignment to an alias assigns to its target and then makes the leaf an
alias, and marks it and what is above it. -/
theorem on_setLeaf_of_alias (hfree : t.Caseless) (hs : Sound t ∅) (hacyclic : t.Acyclic)
    (he : t.element? a = some e) (hslot : e.content = .leaf slot) (htype : slot.type = .reference r)
    (hraw : raw.isEmpty = false) (hz : t.targetsFrom e r.path = [.element z])
    (hze : t.element? z = some ze) (hleaf : ze.isLeaf = true)
    (hself : t.beside? ze r.leafName = some z) :
    ∃ chain, t.Climbs chain ∧ chain.head? = some a ∧ (∀ x ∈ chain, (t.element? x).isSome) ∧
      (setLeaf a raw).on t
        = (setLeaf z raw >>= fun _ => changing fun t' =>
          (t'.aliasing a r.path).marked chain).on t := by
  obtain ⟨p, hp⟩ := exists_plan hs hfree.hooked he
  obtain ⟨hclimbs, hhead⟩ := climbs_of_planFrom hp
  have hmarks : ∀ x ∈ p.marks, (t.element? x).isSome := fun x hx => by
    obtain ⟨xe, hxe⟩ := exists_of_mem_marks hp hx
    rw [hxe]
    rfl
  refine ⟨p.marks, hclimbs, hhead, hmarks, ?_⟩
  have hresolve := on_resolveWith_eq_setLeaf hfree hacyclic he hslot htype hraw hz hze hleaf hself
  have hwhole := whole_setLeaf hfree.pliable z raw
  rw [on_setLeaf_of_reference hfree hp he hslot htype raw, on_bind, on_bind, hresolve, on_bind]
  generalize hwrite : (setLeaf z raw).on t = result
  obtain ⟨err | _, t₁⟩ := result
  · rfl
  have hlive : ∀ x, (t₁.element? x).isSome = (t.element? x).isSome :=
    (hwhole.of_ok hwrite).toSameFrame.isSome
  obtain ⟨e₁, he₁⟩ :=
    Option.isSome_iff_exists.1 (show (t₁.element? a).isSome by rw [hlive, he]; rfl)
  show (update a _ >>= fun _ => markChanged p.marks).on t₁ = _
  rw [on_bind, on_update, element_eq_ok_iff.2 he₁]
  refine on_markChanged fun x hx => ?_
  rw [isSome_element?_modifyElement, hlive]
  exact hmarks x hx

/-- An assignment without cases in the way leads on to nothing new. -/
theorem Caseless.abides_setLeaf (h : t.Caseless) (id : ElementId) (raw : Value) :
    t.Abides ((setLeaf id raw).on t).2 := (leads_setLeaf abides_assignFrom id raw t h).2

/-! ## Writing through -/

/-- Assigning to a leaf is assigning to another one.  It fails as that does, with the tree as it
was.  If it succeeds then it has made the leaf an alias besides, and has marked it and what is above
it; and now the two read the same. -/
def WritesThrough (t : Tree) (a z : ElementId) (path : String) (raw : Value) : Prop :=
  ∃ chain, t.Climbs chain ∧ chain.head? = some a ∧
    (∀ {t₁}, (setLeaf z raw).on t = (.ok (), t₁) →
      ∃ t₂, t₂ = (t₁.aliasing a path).marked chain ∧ (setLeaf a raw).on t = (.ok (), t₂) ∧
        (∃ slot, t₂.held a = some (.leaf slot) ∧ slot.value = some (.reference (.pointer path))) ∧
        t₂.value a = t₂.value z) ∧
    ∀ {err t₁}, (setLeaf z raw).on t = (.error err, t₁) → t₁ = t ∧
      (setLeaf a raw).on t = (.error err, t)

/-- In an acyclic tree without cases this is so where the parent of the target assigns to it. -/
theorem writesThrough_of_alias (hfree : t.Caseless) (hs : Sound t ∅) (hacyclic : t.Acyclic)
    (he : t.element? a = some e) (hslot : e.content = .leaf slot) (htype : slot.type = .reference r)
    (hraw : raw.isEmpty = false) (hz : t.targetsFrom e r.path = [.element z])
    (hze : t.element? z = some ze) (hleaf : ze.isLeaf = true)
    (hself : t.beside? ze r.leafName = some z) : t.WritesThrough a z r.path raw := by
  obtain ⟨chain, hclimbs, hhead, hlive, hsame⟩ :=
    on_setLeaf_of_alias hfree hs hacyclic he hslot htype hraw hz hze hleaf hself
  refine ⟨chain, hclimbs, hhead, fun {t₁} hok => ?_, fun {err t₁} hfail => ?_⟩
  · rw [on_bind, hok] at hsame
    have hframe : t.SameFrame t₁ := ((whole_setLeaf hfree.pliable z raw).of_ok hok).toSameFrame
    obtain ⟨e₁, he₁, hf₁⟩ := hframe.symm.element? he
    obtain ⟨value, hslot₁⟩ := Element.exists_leaf_of_bare (Element.frame_eq_iff.1 hf₁).1.symm hslot
    have hlive₁ : ∀ x ∈ chain, (t₁.element? x).isSome := fun x hx => by
      rw [hframe.isSome]
      exact hlive x hx
    have hheld : ((t₁.aliasing a r.path).marked chain).held a = _ :=
      held_marked_aliasing he₁ hslot₁ hlive₁
    refine ⟨_, rfl, hsame, ⟨_, hheld, rfl⟩, ?_⟩
    have habides : t.Abides ((t₁.aliasing a r.path).marked chain) := by
      have hall := hfree.abides_setLeaf a raw
      rwa [hsame] at hall
    obtain ⟨e₂, he₂, hslot₂⟩ := held_eq_some_iff.1 hheld
    obtain ⟨e', he', hf₂⟩ := habides.toSameFrame.element? he₂
    obtain rfl : e = e' := Option.some.inj (he.symm.trans he')
    refine (habides.acyclic hacyclic).value_of_pointer he₂ hslot₂ rfl ?_
    rw [targetsFrom_congr habides.registry (Element.frame_eq_iff.1 hf₂).1, hz]
  · rw [on_bind, hfail] at hsame
    obtain rfl := (whole_setLeaf hfree.pliable z raw).of_error hfail
    exact ⟨rfl, hsame⟩

/-- **Writing through a reference is writing its target**, through chains of any length: whatever
was done with the tree of a schema without choices, if nothing leads in a circle, and if the path of
a reference leads to a leaf alone and has its name as the last segment.  A slash behind that segment
does not change where the path leads to, but what follows it names nothing, and then the reference
takes no value. -/
theorem writesThrough_of_evolves {zslot : LeafSlot} (hfree : schema.root.ChoiceFree)
    (hroot : spec.parent = none) (h : Evolves schema spec t) (hacyclic : t.Acyclic)
    (he : t.element? a = some e) (hslot : e.content = .leaf slot) (htype : slot.type = .reference r)
    (hz : t.targetsFrom e r.path = [.element z]) (hze : t.element? z = some ze)
    (hzslot : ze.content = .leaf zslot)
    (hname : (Path.segments r.path.toList).getLast? = some ze.name.toList)
    (hplain : '[' ∉ ze.name.toList) (hraw : raw.isEmpty = false) :
    (r.path.toList.getLast? ≠ some '/' → t.WritesThrough a z r.path raw) ∧
      (r.path.toList.getLast? = some '/' → ∃ p pe, ze.parent = some p ∧ t.element? p = some pe ∧
        (Assoc.get? "" pe.setters = none →
          (setLeaf a raw).on t = (.error (.unsupported "set_" pe.name), t))) := by
  obtain ⟨hs, hassign⟩ := assignable_of_evolves hroot h
  have hcaseless := (schematic_of_evolves hroot h).caseless hfree
  have hleaf := (hassign.settable z).isLeaf hze hzslot
  have hne : a ≠ z := by
    rintro rfl
    exact hacyclic a (.single (mem_leadsOn_of_reference he hslot htype hz hze hleaf))
  obtain ⟨q, qe, hq, hqe, hset⟩ := hassign.exists_parent hs hze hzslot he hne
  constructor
  · intro hslash
    refine writesThrough_of_alias hcaseless hs hacyclic he hslot htype hraw hz hze hleaf ?_
    rw [ReferenceType.leafName_eq hname hplain hslash, String.ofList_toList]
    simp only [beside?, hq, hqe, hset, Option.bind_some]
  · intro hslash
    refine ⟨q, qe, hq, hqe, fun hnone => ?_⟩
    obtain ⟨p, hp⟩ := exists_plan hs hcaseless.hooked he
    have hfield : r.leafName = "" := ReferenceType.leafName_of_slash hslash
    rw [on_setLeaf_of_reference hcaseless hp he hslot htype, on_bind,
      on_resolveWith_of_alias he hz hze hleaf, if_neg (by simp [hraw]), on_bind, hfield]
    simp only [writeThrough, hq, on_bind, on_get, element_eq_ok_iff.2 hqe, setterFor, hnone,
      on_ofExcept]
    rfl

/-! ## A session -/

/-- A leaf, a reference to it, one to that reference, and one whose path ends in a slash. -/
def wired : Blueprint :=
  .container
    [⟨"x", none, .leaf .string⟩, ⟨"b", none, .leaf (.reference ⟨"/x", false⟩)⟩,
      ⟨"a", none, .leaf (.reference ⟨"../b", false⟩)⟩,
      ⟨"c", none, .leaf (.reference ⟨"/x/", false⟩)⟩]

/-- A value was written through the first reference. -/
def wiring : Tree :=
  let made := (Operation.instantiate wired { name := "root", registers := true }).after {}
  (Operation.setLeaf ⟨2⟩ (.text "u")).after made

theorem grows_wiring : Grows wired { name := "root", registers := true } wiring := by
  have hmade : Grows wired { name := "root", registers := true } _ := .refl
  exact hmade.andThen (.setLeaf ⟨2⟩ (.text "u")) trivial

theorem choiceFree_wired : wired.root.ChoiceFree := by
  simp [wired, Blueprint.declared, declareAll, declare, Schema.ChoiceFree, Schema.AllChoiceFree]

/-- The root leads on to all leaves, and each leaf to earlier ones. -/
theorem acyclic_wiring : wiring.Acyclic :=
  acyclic_of_rank (fun x => if x.index = 0 then 5 else x.index) (by decide +kernel)

/-- The reference that is the type of a leaf. -/
def reference? (e : Element) : Option ReferenceType :=
  match e.content with
  | .leaf ⟨.reference r, _⟩ => some r
  | _ => none

theorem exists_leaf_of_reference? (h : reference? e = some r) :
    ∃ slot, e.content = .leaf slot ∧ slot.type = .reference r := by
  unfold reference? at h
  split at h
  · next hslot => exact ⟨_, hslot, by rw [Option.some.inj h]⟩
  · cases h

/-- The references, what they lead to, and the names there. -/
theorem wiring_places : ∀ m ∈ [(3, "../b", 2, "b"), (4, "/x/", 1, "x")],
    (wiring.element? ⟨m.1⟩).map (fun e => (reference? e, wiring.aliased e m.2.1))
        = some (some ⟨m.2.1, false⟩, [⟨m.2.2.1⟩]) ∧
      (wiring.element? ⟨m.2.2.1⟩).map (fun e => ((leafType e).isOk, e.parent, e.name))
        = some (true, some ⟨0⟩, m.2.2.2) := by
  decide +kernel

theorem exists_wire (a : Nat) (path : String) (z : Nat) (name : String)
    (hm : (a, path, z, name) ∈ [(3, "../b", 2, "b"), (4, "/x/", 1, "x")]) :
    ∃ e slot ze zslot, wiring.element? ⟨a⟩ = some e ∧ e.content = .leaf slot ∧
      slot.type = .reference ⟨path, false⟩ ∧ wiring.targetsFrom e path = [.element ⟨z⟩] ∧
      wiring.element? ⟨z⟩ = some ze ∧ ze.content = .leaf zslot ∧ ze.parent = some ⟨0⟩ ∧
      ze.name = name := by
  obtain ⟨hfrom, hto⟩ := wiring_places _ hm
  obtain ⟨e, he, hreference⟩ := Option.map_eq_some_iff.1 hfrom
  obtain ⟨hreference, haliased⟩ := Prod.mk.inj hreference
  obtain ⟨slot, hslot, htype⟩ := exists_leaf_of_reference? hreference
  obtain ⟨ze, hze, htarget⟩ := Option.map_eq_some_iff.1 hto
  obtain ⟨hleaf, hpar, hname⟩ : (leafType ze).isOk = true ∧ ze.parent = some ⟨0⟩ ∧
      ze.name = name := by
    simpa using htarget
  obtain ⟨zslot, hzslot⟩ : ∃ zslot, ze.content = .leaf zslot := by
    unfold leafType at hleaf
    split at hleaf
    · next slot hslot => exact ⟨slot, hslot⟩
    · cases hleaf
  exact ⟨e, slot, ze, zslot, he, hslot, htype, mem_aliased_iff.1 (haliased ▸ List.mem_cons_self),
    hze, hzslot, hpar, hname⟩

/-- A value goes through both references to the leaf, but not past a slash. -/
theorem writesThrough_wiring : wiring.Acyclic ∧
    (∃ t', (setLeaf ⟨3⟩ (.text "v")).on wiring = (.ok (), t') ∧ t'.value ⟨3⟩ = t'.value ⟨2⟩) ∧
      (setLeaf ⟨4⟩ (.text "v")).on wiring = (.error (.unsupported "set_" "root"), wiring) := by
  have hgrows := grows_wiring.evolves
  have hplain : ∀ name ∈ ["b", "x"], '[' ∉ name.toList := by decide
  have hgiven : (Value.text "v").isEmpty = false := rfl
  refine ⟨acyclic_wiring, ?_, ?_⟩
  · obtain ⟨e, slot, ze, zslot, he, hslot, htype, hz, hze, hzslot, -, hname⟩ :=
      exists_wire 3 "../b" 2 "b" (by simp)
    have hlast : (Path.segments "../b".toList).getLast? = some "b".toList := by decide
    obtain ⟨chain, -, -, hok, -⟩ := (writesThrough_of_evolves choiceFree_wired rfl hgrows
      acyclic_wiring he hslot htype hz hze hzslot (by rw [hname]; exact hlast)
      (by rw [hname]; exact hplain _ (by simp)) hgiven).1 (by decide)
    obtain ⟨_, t₁, hon⟩ :=
      exists_ok_of_isOk (x := setLeaf ⟨2⟩ (.text "v")) (t := wiring) (by decide +kernel)
    obtain ⟨t₂, -, hon₂, -, hvalue⟩ := hok hon
    exact ⟨t₂, hon₂, hvalue⟩
  · obtain ⟨e, slot, ze, zslot, he, hslot, htype, hz, hze, hzslot, hpar, hname⟩ :=
      exists_wire 4 "/x/" 1 "x" (by simp)
    have hlast : (Path.segments "/x/".toList).getLast? = some "x".toList := by decide
    obtain ⟨p, pe, hp, hpe, hfail⟩ := (writesThrough_of_evolves choiceFree_wired rfl hgrows
      acyclic_wiring he hslot htype hz hze hzslot (by rw [hname]; exact hlast)
      (by rw [hname]; exact hplain _ (by simp)) hgiven).2 (by decide)
    obtain rfl : ⟨0⟩ = p := Option.some.inj (hpar.symm.trans hp)
    have hroot : (wiring.element? ⟨0⟩).map (fun e => (Assoc.get? "" e.setters, e.name)) =
        some (none, "root") := by
      decide +kernel
    rw [hpe, Option.map_some, Option.some.injEq, Prod.mk.injEq] at hroot
    rw [hfail hroot.1, hroot.2]

/-- So it is not true of every path that leads to a leaf alone and has its name as the last
segment. -/
theorem not_writesThrough_wiring :
    ¬ ∀ (schema : Blueprint) (spec : ElementSpec) (t : Tree) (a z : ElementId) (e ze : Element)
      (slot zslot : LeafSlot) (r : ReferenceType) (raw : Value), schema.root.ChoiceFree →
      spec.parent = none →
      Grows schema spec t → t.Acyclic → t.element? a = some e → e.content = .leaf slot →
      slot.type = .reference r →
      t.targetsFrom e r.path = [.element z] → t.element? z = some ze → ze.content = .leaf zslot →
      (Path.segments r.path.toList).getLast? = some ze.name.toList → '[' ∉ ze.name.toList →
      raw.isEmpty = false → t.WritesThrough a z r.path raw := by
  intro hall
  obtain ⟨e, slot, ze, zslot, he, hslot, htype, hz, hze, hzslot, -, hname⟩ :=
    exists_wire 4 "/x/" 1 "x" (by simp)
  have hlast : (Path.segments "/x/".toList).getLast? = some "x".toList := by decide
  have hplain : '[' ∉ "x".toList := by decide
  obtain ⟨chain, -, -, hok, -⟩ := hall wired _ wiring ⟨4⟩ ⟨1⟩ e ze slot zslot _ (.text "v")
    choiceFree_wired rfl grows_wiring acyclic_wiring he hslot htype hz hze hzslot
      (by rw [hname]; exact hlast)
    (by rw [hname]; exact hplain) rfl
  obtain ⟨_, t₁, hon⟩ :=
    exists_ok_of_isOk (x := setLeaf ⟨1⟩ (.text "v")) (t := wiring) (by decide +kernel)
  obtain ⟨t₂, -, hon₂, -⟩ := hok hon
  have hfails : ((setLeaf ⟨4⟩ (.text "v")).on wiring).1.isOk = false := by decide +kernel
  rw [hon₂] at hfails
  cases hfails

end DataTree.Tree
