import DataTree.Proofs.Links.Orphans
import DataTree.Proofs.Reference.Session
import DataTree.Proofs.Typing.Again

/-!
# DataTree.Proofs.Typing.OnTree

Values are constructed twice: by the types alone, and on a tree, which looks for the targets of
references.  For a leaf that is not registered there is nothing to look for, and both agree:

* every reference keeps its value as it came (`on_resolveWith_unregistered`), so a union tries
  the same candidates with the same results and leaves the tree as it is (`on_constructOn`);
* without choices nothing is unset, and the plan of a change can be made exactly if the way up
  from the leaf ends at a root (`anchored_iff_planFrom`);
* so an assignment stores what the type makes of the value and fails with the error of the type
  (`setLeaf_constructs`).

A leaf below an element that was removed has no way up, and is refused every value.
-/

namespace DataTree

open Edit Outcome

namespace LeafType

variable {raw : Value} {type : LeafType} {types : List LeafType} {v : LeafValue}

/-- What is not absent is made into a value or refused. -/
theorem construct_ne_none (hraw : raw.isEmpty = false) : type.construct raw ≠ .ok none := by
  intro h
  obtain ⟨v, hv, -⟩ := isPlain_of_construct hraw h
  cases hv

/-- The first of several types that accepts a value, and the value that it makes. -/
def FirstAccepts (types : List LeafType) (raw : Value) (v : LeafValue) : Prop :=
  ∃ front type behind, types = front ++ type :: behind ∧ type.construct raw = .ok (some v) ∧
    ∀ earlier ∈ front, ∃ err, earlier.construct raw = .error err

theorem constructFirst_eq_findSome? (types : List LeafType) :
    constructFirst raw types = types.findSome? fun type => (type.construct raw).toOption.join := by
  induction types with
  | nil => rw [constructFirst, List.findSome?_nil]
  | cons type types ih =>
    rw [constructFirst, List.findSome?_cons, ih]
    cases type.construct raw with
    | error err => rfl
    | ok made => cases made <;> rfl

/-- A union accepts what the first of its candidates makes that accepts. -/
theorem construct_union_iff (hraw : raw.isEmpty = false) :
    (union types).construct raw = .ok (some v) ↔ FirstAccepts types raw v := by
  have hmade : ∀ type : LeafType,
      (type.construct raw).toOption.join = some v ↔
        type.construct raw = .ok (some v) := fun type => by
    cases type.construct raw <;> simp [Except.toOption]
  have hrefused : ∀ type : LeafType,
      (type.construct raw).toOption.join = none ↔
        ∃ err, type.construct raw = .error err := fun type => by
    have hne : type.construct raw ≠ .ok none := construct_ne_none hraw
    cases h : type.construct raw <;> simp_all [Except.toOption, Option.ne_none_iff_exists']
  have hfirst : constructFirst raw types = some v ↔ FirstAccepts types raw v := by
    simp only [constructFirst_eq_findSome?, List.findSome?_eq_some_iff, hmade, hrefused,
      FirstAccepts]
  rw [← hfirst, construct, if_neg (by simp [hraw])]
  cases constructFirst raw types <;> simp

/-! ## Unions without unions -/

theorem candidatesOf_append (front behind : List LeafType) :
    candidatesOf (front ++ behind) = candidatesOf front ++ candidatesOf behind := by
  induction front with
  | nil => rfl
  | cons type front ih => rw [List.cons_append, candidatesOf, candidatesOf, ih, List.append_assoc]

mutual

theorem candidatesOf_candidates : ∀ type : LeafType, candidatesOf type.candidates = type.candidates
  | .union types => by rw [candidates, candidatesOf_candidatesOf types]
  | .text _ => by simp [candidates, candidatesOf]
  | .int _ => by simp [candidates, candidatesOf]
  | .uint _ => by simp [candidates, candidatesOf]
  | .decimal _ _ => by simp [candidates, candidatesOf]
  | .bool => by simp [candidates, candidatesOf]
  | .reference _ => by simp [candidates, candidatesOf]

/-- There are no unions left among the candidates. -/
theorem candidatesOf_candidatesOf :
    ∀ types : List LeafType, candidatesOf (candidatesOf types) = candidatesOf types
  | [] => by simp [candidatesOf]
  | type :: types => by
    rw [candidatesOf, candidatesOf_append, candidatesOf_candidates type,
      candidatesOf_candidatesOf types]

end

/-- **Flattening**: the union of the candidates of a type, in their order and at all depths, makes
the same value as the type. -/
theorem construct_flat_iff (hraw : raw.isEmpty = false) :
    (union type.candidates).construct raw = .ok (some v) ↔ type.construct raw = .ok (some v) := by
  rw [construct_eq_some_iff hraw, construct_eq_some_iff hraw, candidates, candidatesOf_candidates]

end LeafType

namespace Tree

variable {t t' : Tree} {x y : ElementId} {e : Element} {slot : LeafSlot} {raw : Value} {p : Plan}
  {fuel : Nat} {active : Option Case} {resolve : ReferenceType → Edit ReferenceValue}

/-! ## Constructing on a tree -/

/-- Without registration a reference keeps its value as it came. -/
theorem on_resolveWith_unregistered {assign : ElementId → Value → Edit Unit}
    (he : t.element? x = some e) (hreg : e.registers = false) (r : ReferenceType) :
    (resolveWith assign r x raw).on t = (.ok (.verbatim (given raw)), t) := by
  simp [resolveWith, on_bind, on_get, element_eq_ok_iff.2 he, hreg, on_pure]

mutual

/-- **Where references keep their values the tree constructs what the type does**, and stays as
it is. -/
theorem on_constructOn (hresolve : ∀ r, (resolve r).on t = (.ok (.verbatim (some raw)), t))
    (hraw : raw.isEmpty = false) :
    ∀ type : LeafType, (constructOn resolve raw type).on t = (type.construct raw, t)
  | .reference r => by
    rw [constructOn, on_bind, hresolve, LeafType.construct, if_neg (by simp [hraw]),
      LeafType.constructPlain]
    · rfl
    · simp
  | .union candidates => by
    rw [constructOn]
    split
    · rw [if_neg (by simp [hraw]), on_bind, on_constructFirstOn hresolve hraw candidates,
        LeafType.construct, if_neg (by simp [hraw])]
      cases LeafType.constructFirst raw candidates <;> rfl
    · rfl
  | .text _ => by rw [constructOn_eq (by simp [LeafType.involvesReference]), on_ofExcept]
  | .int _ => by rw [constructOn_eq (by simp [LeafType.involvesReference]), on_ofExcept]
  | .uint _ => by rw [constructOn_eq (by simp [LeafType.involvesReference]), on_ofExcept]
  | .decimal _ _ => by rw [constructOn_eq (by simp [LeafType.involvesReference]), on_ofExcept]
  | .bool => by rw [constructOn_eq (by simp [LeafType.involvesReference]), on_ofExcept]

/-- Candidates that fail leave no trace, so that every one finds the same tree. -/
theorem on_constructFirstOn (hresolve : ∀ r, (resolve r).on t = (.ok (.verbatim (some raw)), t))
    (hraw : raw.isEmpty = false) :
    ∀ types : List LeafType, (constructFirstOn resolve raw types).on t =
      (.ok (LeafType.constructFirst raw types), t)
  | [] => rfl
  | type :: types => by
    rw [constructFirstOn, on_bind, on_tryCatch, on_constructOn hresolve hraw type,
      LeafType.constructFirst]
    cases hfirst : type.construct raw with
    | error err => exact on_constructFirstOn hresolve hraw types
    | ok made =>
      cases made with
      | none => exact on_constructFirstOn hresolve hraw types
      | some v => rfl

end

/-! ## Plans without choices -/

/-- Without cases nobody has siblings. -/
theorem Caseless.siblingHooks_eq (h : t.Caseless) (he : t.element? x = some e)
    (active : Option Case) : siblingHooks e active = .ok [] := by
  cases active with
  | none => rfl
  | some active =>
    have hnone : e.choices.siblings active = [] := List.eq_nil_iff_forall_not_mem.2 fun _ hm =>
      h he (ChoiceTable.has_of_mem_siblings hm).1
    rw [siblingHooks, hnone]
    rfl

/-- **A change can be planned exactly if the way up ends at a root.** -/
theorem anchored_iff_planFrom (ho : t.Owned) (hfree : t.Caseless) (hfuel : x.index < fuel) :
    t.Anchored x ↔ ∃ p, t.planFrom fuel x active = .ok p := by
  constructor
  · intro hx
    induction hx generalizing fuel active with
    | @root x e he hp =>
      obtain ⟨fuel, rfl⟩ := Nat.exists_eq_add_of_lt hfuel
      exact ⟨_, planFrom_succ_eq_ok.2 ⟨e, [], he, hfree.siblingHooks_eq he active, .inl ⟨hp, rfl⟩⟩⟩
    | @child x parent e he hp _ ih =>
      have hlt := ho.parent_lt he hp
      obtain ⟨fuel, rfl⟩ : ∃ n, fuel = n + 1 := ⟨fuel - 1, by omega⟩
      obtain ⟨above, habove⟩ : ∃ above, t.planFrom fuel parent (active.orElse fun _ => e.case) =
          .ok above :=
        ih (by omega)
      exact ⟨_, planFrom_succ_eq_ok.2
        ⟨e, [], he, hfree.siblingHooks_eq he active, .inr ⟨parent, above, hp, habove, rfl⟩⟩⟩
  · rintro ⟨p, hp⟩
    induction fuel generalizing x active p with
    | zero => cases hp
    | succ fuel ih =>
      obtain ⟨e, -, he, -, ⟨hnone, -⟩ | ⟨parent, above, hparent, habove, -⟩⟩ :=
        planFrom_succ_eq_ok.1 hp
      · exact .root he hnone
      · have hlt := ho.parent_lt he hparent
        exact .child he hparent (ih (by omega) above habove)

/-- What stops a plan is an element that is missing on the way up. -/
theorem planFrom_eq_error (ho : t.Owned) (hfree : t.Caseless) (hfuel : x.index < fuel) {err : Error}
    (h : t.planFrom fuel x active = .error err) :
    ∃ y, err = .elementNotFound y ∧ t.element? y = none ∧ (x = y ∨ t.Ascends x y) := by
  induction fuel generalizing x active with
  | zero => omega
  | succ fuel ih =>
    rw [planFrom] at h
    obtain h | ⟨e, he, h⟩ := bind_eq_error.1 h
    · obtain ⟨hnone, rfl⟩ := element_eq_error_iff.1 h
      exact ⟨x, rfl, hnone, .inl rfl⟩
    rw [element_eq_ok_iff] at he
    rw [hfree.siblingHooks_eq he active] at h
    obtain h | ⟨hooks, -, h⟩ := bind_eq_error.1 h
    · cases h
    cases hparent : e.parent with
    | none =>
      rw [hparent] at h
      cases h
    | some parent =>
      have hlt := ho.parent_lt he hparent
      have hstep : t.Ascends x parent := .single ⟨e, he, hparent⟩
      rw [hparent] at h
      obtain h | ⟨above, -, h⟩ := bind_eq_error.1 h
      · obtain ⟨y, rfl, hy, hway⟩ := ih (by omega) h
        refine ⟨y, rfl, hy, .inr ?_⟩
        obtain rfl | hway := hway
        · exact hstep
        · exact hstep.trans hway
      · cases h

/-! ## Assigning -/

/-- Assigning to a leaf that is not registered constructs by its type alone, and without cases there
is nothing to unset. -/
theorem on_setLeaf_unregistered (hfree : t.Caseless) (hp : t.plan x none = .ok p)
    (he : t.element? x = some e) (hslot : e.content = .leaf slot) (hreg : e.registers = false)
    (hraw : raw.isEmpty = false) :
    (setLeaf x raw).on t = (do
      let value ← Edit.ofExcept (slot.type.construct raw)
      update x (store value)
      markChanged p.marks : Edit Unit).on t := by
  have htype : leafType e = .ok slot.type := by rw [leafType, hslot]
  have hconstruct : (constructOn (fun r => resolveWith (assignFrom t.slots.size) r x raw)
    raw slot.type).on t
      = (slot.type.construct raw, t) := by
    refine on_constructOn (fun r => ?_) hraw slot.type
    rw [on_resolveWith_unregistered he hreg, given, if_neg (by simp [hraw])]
  rw [on_setLeaf_eq, assignFrom]
  simp only [on_bind, on_reading, hp, on_get, element_eq_ok_iff.2 he, htype,
    on_ofExcept, hconstruct, hfree.unsets_eq_nil hp]
  rfl

/-- What the type refuses leaves the tree as it is. -/
theorem on_setLeaf_of_refused {err : Error} (hfree : t.Caseless) (hp : t.plan x none = .ok p)
    (he : t.element? x = some e) (hslot : e.content = .leaf slot) (hreg : e.registers = false)
    (hraw : raw.isEmpty = false) (hvalue : slot.type.construct raw = .error err) :
    (setLeaf x raw).on t = (.error err, t) := by
  rw [on_setLeaf_unregistered hfree hp he hslot hreg hraw, hvalue, on_bind, on_ofExcept]

/-- What the type accepts is stored. -/
theorem exists_on_setLeaf {value : Option LeafValue} (hfree : t.Caseless)
    (hp : t.plan x none = .ok p)
    (he : t.element? x = some e) (hslot : e.content = .leaf slot) (hreg : e.registers = false)
    (hraw : raw.isEmpty = false) (hvalue : slot.type.construct raw = .ok value) :
    ∃ t', (setLeaf x raw).on t = (.ok (), t') ∧ t'.held x = some (.leaf { slot with value }) := by
  have hlive : ∀ y ∈ p.marks, ((t.modifyElement x (store value)).element? y).isSome := by
    intro y hy
    obtain ⟨ye, hye⟩ := exists_of_mem_marks hp hy
    rw [isSome_element?_modifyElement, hye]
    rfl
  have hmarked := on_markChanged hlive
  have hsame := sameData_markChanged p.marks (t.modifyElement x (store value))
  rw [hmarked] at hsame
  refine ⟨(t.modifyElement x (store value)).marked p.marks, ?_, ?_⟩
  · rw [on_setLeaf_unregistered hfree hp he hslot hreg hraw, hvalue]
    simp only [on_bind, on_ofExcept, on_update, element_eq_ok_iff.2 he, hmarked]
  · rw [hsame x, held_store value he rfl hslot]

/-- **The tree constructs what the type does.**  In every session, a leaf without a path helper in
a tree without choices takes a value exactly if its type does, holds then what the type makes of it,
and is otherwise left with the error of the type; provided that its way up ends at a root.  If an
element above it is missing no value is taken.  A union makes what the first of its candidates
makes that accepts, and so does the union of all that are not unions themselves. -/
theorem setLeaf_constructs (h : Reaches Unrestricted {} t) (hfree : t.Caseless)
    (he : t.element? x = some e) (hslot : e.content = .leaf slot) (hreg : e.registers = false)
    (hraw : raw.isEmpty = false) :
    (t.Anchored x →
      (∀ value, (∃ t', (setLeaf x raw).on t = (.ok (), t') ∧
        t'.held x = some (.leaf { slot with value })) ↔
        slot.type.construct raw = .ok value) ∧
      ∀ err, (setLeaf x raw).on t = (.error err, t) ↔ slot.type.construct raw = .error err) ∧
    (¬ t.Anchored x → ∃ y, t.Ascends x y ∧ t.element? y = none ∧
      (setLeaf x raw).on t = (.error (.elementNotFound y), t)) ∧
    (∀ types v, slot.type = .union types →
      (slot.type.construct raw = .ok (some v) ↔ LeafType.FirstAccepts types raw v)) ∧
    ∀ v, slot.type.construct raw = .ok (some v) ↔
      (LeafType.union slot.type.candidates).construct raw = .ok (some v) := by
  have ho := (owned_of_reaches h).1
  refine ⟨fun hx => ?_, fun hx => ?_, fun types v htype => ?_,
    fun v => (LeafType.construct_flat_iff hraw).symm⟩
  · obtain ⟨p, hp⟩ := (anchored_iff_planFrom ho hfree (Nat.lt_succ_self x.index)).1 hx
    cases hvalue : slot.type.construct raw with
    | error err =>
      have hset := on_setLeaf_of_refused hfree hp he hslot hreg hraw hvalue
      refine ⟨fun value => iff_of_false ?_ (by simp), fun err' => by rw [hset]; simp⟩
      rintro ⟨t', hon, -⟩
      rw [hset] at hon
      cases hon
    | ok value =>
      obtain ⟨t', hset, hheld⟩ := exists_on_setLeaf hfree hp he hslot hreg hraw hvalue
      refine ⟨fun value' => ?_, fun err => by rw [hset]; simp⟩
      constructor
      · rintro ⟨t'', hon, hheld'⟩
        obtain ⟨-, rfl⟩ := Prod.mk.inj (hset.symm.trans hon)
        have hslots := Content.leaf.inj (Option.some.inj (hheld.symm.trans hheld'))
        exact congrArg Except.ok (congrArg LeafSlot.value hslots)
      · intro heq
        obtain rfl := Except.ok.inj heq
        exact ⟨t', hset, hheld⟩
  · cases hp : t.plan x none with
    | ok p =>
      exact absurd ((anchored_iff_planFrom ho hfree (Nat.lt_succ_self x.index)).2 ⟨p, hp⟩) hx
    | error err =>
      obtain ⟨y, rfl, hy, hway⟩ := planFrom_eq_error ho hfree (Nat.lt_succ_self x.index) hp
      obtain rfl | hway := hway
      · rw [he] at hy
        cases hy
      · refine ⟨y, hway, hy, ?_⟩
        rw [on_setLeaf_eq, assignFrom, on_bind, on_reading, hp]
  · rw [htype]
    exact LeafType.construct_union_iff hraw

/-! ## Sessions -/

theorem caseless_of_isEmpty (h : ∀ id ∈ t.ids, (t.element? id).all (·.choices.isEmpty) = true) :
    t.Caseless := by
  rintro id e k m he ⟨members, hmembers, -⟩
  have hempty := h id (mem_ids_iff.2 ⟨e, he⟩)
  rw [he, Option.all_some, ChoiceTable.isEmpty, List.isEmpty_iff] at hempty
  rw [ChoiceTable.cases, hempty] at hmembers
  cases hmembers

/-- A holder with a limit: a small number or a switch, or else whatever is found elsewhere. -/
def limited : Tree :=
  let type : LeafType := .union [.union [.uint8, .bool], .reference ⟨"../speed", true⟩]
  let holder := (Operation.wrap .container { name := "holder" } .container).after {}
  (Operation.wrap (.leaf { type }) { name := "limit", parent := some ⟨0⟩ }
    (.leaf type)).after holder

theorem reaches_limited : Reaches Unrestricted {} limited := by
  have hstart : Reaches Unrestricted {} {} := .refl
  have hholder := hstart.andThen (.wrap .container { name := "holder" } .container) trivial
  exact hholder.andThen (.wrap (.leaf _) { name := "limit", parent := some ⟨0⟩ } (.leaf _)) trivial

/-- What is neither a number nor a switch is kept for the reference, which is not looked for. -/
theorem setLeaf_constructs_limited :
    ∃ t' slot, (setLeaf ⟨1⟩ (.text "fast")).on limited = (.ok (), t') ∧
      t'.held ⟨1⟩ = some (.leaf slot) ∧ slot.value.map LeafValue.toValue = some (.text "fast") := by
  have hroot : ∃ e, limited.element? ⟨0⟩ = some e ∧ e.parent = none := ⟨_, rfl, rfl⟩
  have hleaf : ∃ e slot, limited.element? ⟨1⟩ = some e ∧ e.parent = some ⟨0⟩ ∧
      e.content = .leaf slot ∧ e.registers = false ∧
      slot.type.construct (.text "fast") = .ok
        (some (.reference (.verbatim (some (.text "fast"))))) :=
    ⟨_, _, rfl, rfl, rfl, rfl, rfl⟩
  obtain ⟨r, hr, hnone⟩ := hroot
  obtain ⟨e, slot, he, hparent, hslot, hreg, hvalue⟩ := hleaf
  have hfree : limited.Caseless := caseless_of_isEmpty (by decide +kernel)
  obtain ⟨t', hset, hheld⟩ := (((setLeaf_constructs reaches_limited hfree he hslot hreg rfl).1
    (.child he hparent (.root hr hnone))).1 _).2 hvalue
  exact ⟨t', _, hset, hheld, rfl⟩

/-- A leaf that a removal has left behind is refused what its type accepts. -/
theorem not_constructs_bereft :
    ¬ ∀ (t : Tree) (x : ElementId) (e : Element) (slot : LeafSlot) (raw : Value),
      Reaches Unrestricted {} t →
      t.Caseless → t.element? x = some e → e.content = .leaf slot → e.registers = false →
      raw.isEmpty = false → ((∃ t', (setLeaf x raw).on t = (.ok (), t')) ↔
        ∃ value, slot.type.construct raw = .ok value) := by
  intro h
  have hreaches : Reaches Unrestricted {} bereft :=
    reaches_doubled.andThen (.removeSubtree ⟨0⟩) trivial
  have hleaf : ∃ e slot, bereft.element? ⟨1⟩ = some e ∧ e.content = .leaf slot ∧
      e.registers = false ∧
      ∃ value, slot.type.construct (.text "late") = .ok value := ⟨_, _, rfl, rfl, rfl, _, rfl⟩
  obtain ⟨e, slot, he, hslot, hreg, hvalue⟩ := hleaf
  have hfree : bereft.Caseless := caseless_of_isEmpty (by decide +kernel)
  obtain ⟨t', hset⟩ :=
    (h bereft ⟨1⟩ e slot (.text "late") hreaches hfree he hslot hreg rfl).2 hvalue
  have hfails : ((setLeaf ⟨1⟩ (.text "late")).on bereft).1.isOk = false := by decide +kernel
  rw [hset] at hfails
  cases hfails

end Tree

end DataTree
