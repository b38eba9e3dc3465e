import DataTree.Proofs.Accept.Plans
import DataTree.Proofs.Atomic.Assign
import DataTree.Proofs.Mirror.Operations
import DataTree.Proofs.Reference.Acyclic

/-!
# DataTree.Proofs.Reference.Chain

Assigning along chains of references.

A value is made before anything is stored, and a candidate of a union that fails has
changed nothing where assignments happen as a whole or not at all.  So everything that an
assignment goes on to starts from the same tree, and where that comes to an end there the
fuel of assigning stops nothing (`Ends.assignFrom_succ`).

What an assignment stores leads on to nothing new (`Abides`): a pointer leads to where
the reference that it was made for does.
-/

namespace DataTree

open Edit Outcome

/-- No type makes a pointer of a raw value by itself. -/
theorem LeafType.not_pointer_of_construct {raw : Value} {type : LeafType} {path : String} :
    type.construct raw ≠ .ok (some (.reference (.pointer path))) := by
  intro h
  cases hraw : raw.isEmpty with
  | true => cases type <;> simp [construct, hraw] at h
  | false =>
    obtain ⟨v, hv, hplain⟩ := isPlain_of_construct hraw h
    obtain rfl := Option.some.inj hv
    exact absurd hplain.2 (by simp)

namespace Tree

variable {t t' : Tree} {id x y z : ElementId} {e e' ze : Element} {r : ReferenceType} {raw : Value}
  {p : Plan} {fuel n : Nat} {active : Option Case}

/-! ## Trees without cases -/

/-- Nothing is a member of a choice. -/
def Caseless (t : Tree) : Prop := ∀ ⦃id e k m⦄, t.element? id = some e → ¬ e.choices.Has k m

/-- Without cases there is nothing to unset. -/
theorem Caseless.unsets_eq_nil (h : t.Caseless) (hp : t.planFrom fuel id active = .ok p) :
    p.unsets = [] := by
  refine List.eq_nil_iff_forall_not_mem.2 fun hook hm => ?_
  obtain ⟨x, e, k, m, he, hk, -⟩ := exists_member_of_planFrom hp hm
  exact h he hk

/-- Without cases every leaf can be assigned to. -/
theorem Caseless.pliable (h : t.Caseless) : t.Pliable := fun _ _ _ _ _ he hk => absurd hk (h he)

theorem Caseless.hooked (h : t.Caseless) : t.Hooked := fun _ _ _ _ he hk => absurd hk (h he)

theorem Caseless.sameFrame (h : t.Caseless) (hs : t.SameFrame t') : t'.Caseless :=
  fun id e' k m he' hk => by
  obtain ⟨e, he, hf⟩ := hs.element? he'
  rw [Element.choices_of_bare (Element.frame_eq_iff.1 hf).1] at hk
  exact h he hk

/-- No element of a schema without choices is a member of one. -/
theorem Schematic.caseless {schema : Schema} (h : t.Schematic schema) (hfree : schema.ChoiceFree) :
    t.Caseless := by
  obtain ⟨hs, node, hfollows⟩ := h
  have hchildren : ∀ {children : List (Child Schema)}, Schema.AllChoiceFree children →
      ∀ child ∈ children, child.case = none ∧ child.node.ChoiceFree := by
    intro children hall child hm
    induction children with
    | nil => cases hm
    | cons first rest ih =>
      obtain ⟨name, case, node⟩ := first
      rw [Schema.AllChoiceFree] at hall
      obtain rfl | hm := List.mem_cons.1 hm
      · exact ⟨hall.1, hall.2.1⟩
      · exact ih hall.2.2 hm
  have hbelow : ∀ n : Schema, n.ChoiceFree →
      ∀ child ∈ n.children, child.case = none ∧ child.node.ChoiceFree := by
    intro n hn child hm
    cases n with
    | container children default =>
      rw [Schema.ChoiceFree] at hn
      exact hchildren hn child hm
    | _ => cases hm
  intro id e k m he hk
  have hnode : (node id).ChoiceFree := by
    refine hfollows.inherits hs hfree (fun n hn child hm => (hbelow n hn child hm).2)
      (fun list default hn => ?_) he
    obtain ⟨key, entry, ordered⟩ := list
    rw [Schema.ChoiceFree] at hn
    rw [Schema.ofEntry, Schema.ChoiceFree]
    exact hn
  obtain ⟨n, hm⟩ := hfollows.member he hk
  have hnone := (hbelow _ hnode _ hm).1
  cases hnone

/-! ## Resolving -/

/-- A value goes to the leaf beside the target, or to none. -/
theorem on_writeThrough_cases (t : Tree) (ze : Element) (field : String) (raw : Value) :
    (∃ y, t.beside? ze field = some y ∧
      ∀ assign, (writeThrough assign ze field raw).on t = (assign y raw).on t) ∨
    ∃ err, t.beside? ze field = none ∧
      ∀ assign, (writeThrough assign ze field raw).on t = (.error err, t) := by
  cases hpar : ze.parent with
  | none =>
    refine .inr ⟨.unsupported ("set_" ++ field) "root", by simp [beside?, hpar], fun assign => ?_⟩
    simp only [writeThrough, hpar, on_throw]
  | some q =>
    cases hq : t.element? q with
    | none =>
      refine .inr ⟨.elementNotFound q, by simp [beside?, hpar, hq], fun assign => ?_⟩
      simp only [writeThrough, hpar, on_bind, on_get, element, hq]
    | some qe =>
      have hel : t.element q = .ok qe := element_eq_ok_iff.2 hq
      cases hget : Assoc.get? field qe.setters with
      | none =>
        refine .inr ⟨.unsupported ("set_" ++ field) qe.name, by simp [beside?, hpar, hq, hget],
          fun assign => ?_⟩
        simp only [writeThrough, hpar, on_bind, on_get, hel, setterFor, hget, on_ofExcept]
      | some y =>
        refine .inl ⟨y, by simp [beside?, hpar, hq, hget], fun assign => ?_⟩
        simp only [writeThrough, hpar, on_bind, on_get, hel, setterFor, hget, on_ofExcept]

/-- A reference whose path leads to a leaf alone is an alias of that. -/
theorem on_resolveWith_of_alias (he : t.element? x = some e)
    (hz : t.targetsFrom e r.path = [.element z]) (hze : t.element? z = some ze)
    (hleaf : ze.isLeaf = true) (assign : ElementId → Value → Edit Unit) (raw : Value) :
    (resolveWith assign r x raw).on t =
      ((if raw.isEmpty then pure () else writeThrough assign ze r.leafName raw) >>=
        fun _ => pure (.pointer r.path)).on t := by
  have hreg : e.registers = true := by
    by_contra hno
    simp [targetsFrom, hno] at hz
  simp only [resolveWith, on_bind, on_get, element_eq_ok_iff.2 he, element_eq_ok_iff.2 hze, hreg,
    on_reading, hz, Bool.not_true, Bool.false_eq_true, ↓reduceIte, hleaf, on_pure]
  cases raw.isEmpty <;>
    simp only [Bool.not_true, Bool.not_false, Bool.false_eq_true, ↓reduceIte, on_bind, on_pure]

/-- The path of a reference leads to a leaf alone. -/
def IsAlias (t : Tree) (e : Element) (r : ReferenceType) : Prop :=
  ∃ z ze, t.targetsFrom e r.path = [.element z] ∧ t.element? z = some ze ∧ ze.isLeaf = true

/-- Any other reference does not depend on what assigning does, and becomes no pointer. -/
theorem on_resolveWith_of_not_alias (he : t.element? x = some e) (hno : ¬ t.IsAlias e r)
    (raw : Value) :
    ∃ res, (∀ assign, (resolveWith assign r x raw).on t = (res, t)) ∧
      ∀ path, res ≠ .ok (.pointer path) := by
  have hel : t.element x = .ok e := element_eq_ok_iff.2 he
  have hchoose : ∀ path, t.choose r (t.targetsFrom e r.path) raw ≠ .ok (.pointer path) := by
    intro path h
    unfold choose at h
    split at h
    · cases h
    split at h
    · cases h
    obtain ⟨b, -, h⟩ := bind_eq_ok.1 h
    split at h
    · cases h
    · obtain ⟨labels, -, h⟩ := bind_eq_ok.1 h
      cases h
  by_cases hreg : e.registers = true
  case neg =>
    exact ⟨.ok (.verbatim (given raw)), fun assign =>
      by simp [resolveWith, on_bind, hel, hreg], by simp⟩
  by_cases hone : ∃ z, t.targetsFrom e r.path = [.element z]
  case neg =>
    refine ⟨_, fun assign => ?_, hchoose⟩
    simp only [resolveWith, on_bind, on_get, hel, hreg, on_reading, Bool.not_true,
      Bool.false_eq_true, ↓reduceIte]
    split
    · next z hz => exact absurd ⟨z, hz⟩ hone
    · rw [on_bind, on_pure]
      rfl
  obtain ⟨z, hz⟩ := hone
  cases hze : t.element? z with
  | none =>
    have hnone : t.element z = .error (.elementNotFound z) := element_eq_error_iff.2 ⟨hze, rfl⟩
    refine ⟨.error (.elementNotFound z), fun assign => ?_, by simp⟩
    simp only [resolveWith, on_bind, on_get, hel, hreg, on_reading, hz, Bool.not_true,
      Bool.false_eq_true, ↓reduceIte, hnone]
  | some ze =>
    have hleaf : ze.isLeaf = false := Bool.not_eq_true _ ▸ fun hleaf => hno ⟨z, ze, hz, hze, hleaf⟩
    refine ⟨_, fun assign => ?_, hchoose⟩
    simp only [resolveWith, on_bind, on_get, hel, hreg, on_reading, hz, Bool.not_true,
      Bool.false_eq_true, ↓reduceIte, element_eq_ok_iff.2 hze, hleaf, on_pure]

/-- Resolving a reference goes on to nothing but what it leads to. -/
theorem on_resolveWith_congr {assign assign' : ElementId → Value → Edit Unit}
    (he : t.element? x = some e)
    (h : ∀ y ∈ t.refersTo e r, (assign y raw).on t = (assign' y raw).on t) :
    (resolveWith assign r x raw).on t = (resolveWith assign' r x raw).on t := by
  by_cases hal : t.IsAlias e r
  · obtain ⟨z, ze, hz, hze, hleaf⟩ := hal
    rw [on_resolveWith_of_alias he hz hze hleaf, on_resolveWith_of_alias he hz hze hleaf]
    refine on_bind_congr ?_ fun _ _ _ => rfl
    split
    · rfl
    · obtain ⟨y, hy, hassign⟩ | ⟨err, -, hassign⟩ := on_writeThrough_cases t ze r.leafName raw
      · rw [hassign, hassign]
        exact h y (mem_refersTo_iff.2 ⟨z, ze, hz, hze, hleaf, .inr hy⟩)
      · rw [hassign, hassign]
  · obtain ⟨res, hres, -⟩ := on_resolveWith_of_not_alias he hal raw
    rw [hres, hres]

/-- A pointer is made only to a leaf that a path leads to alone. -/
theorem pointer_of_resolveWith {assign : ElementId → Value → Edit Unit} {path : String}
    (he : t.element? x = some e)
    (h : (resolveWith assign r x raw).on t = (.ok (.pointer path), t')) :
    path = r.path ∧ t.aliased e path ⊆ t.refersTo e r := by
  by_cases hal : t.IsAlias e r
  · obtain ⟨z, ze, hz, hze, hleaf⟩ := hal
    rw [on_resolveWith_of_alias he hz hze hleaf, on_bind] at h
    have hpath : path = r.path := by
      split at h
      · obtain ⟨hok, -⟩ := Prod.mk.inj h
        exact (ReferenceValue.pointer.inj (Except.ok.inj hok)).symm
      · cases h
    refine ⟨hpath, fun y hy => ?_⟩
    rw [hpath] at hy
    have hyz : y = z := by simpa [hz, eq_comm] using mem_aliased_iff.1 hy
    exact mem_refersTo_iff.2 ⟨z, ze, hz, hze, hleaf, .inl hyz⟩
  · obtain ⟨res, hres, hno⟩ := on_resolveWith_of_not_alias he hal raw
    rw [hres, Prod.mk.injEq] at h
    exact absurd h.1 (hno path)

/-! ## Constructing -/

section

variable {resolve : ReferenceType → Edit ReferenceValue}

/-- Without references there is nothing to resolve. -/
theorem on_constructOn_plain {type : LeafType} (h : type.involvesReference = false) :
    (constructOn resolve raw type).on t = (type.construct raw, t) := by
  rw [constructOn_eq h, on_ofExcept]

/-- A candidate that does not accept the value has changed nothing. -/
theorem eq_of_tried {type : LeafType} (hw : ∀ {t : Tree}, t.Pliable → ∀ r, Whole (resolve r) t)
    (ht : t.Pliable)
    (h : (tryCatch (constructOn resolve raw type) fun _ => pure none).on t = (.ok none, t')) :
    t' = t := by
  have hwhole := whole_constructOn hw raw type ht
  rw [on_tryCatch] at h
  generalize hr : (constructOn resolve raw type).on t = result at h
  obtain ⟨err | v, t₁⟩ := result
  · obtain rfl := hwhole.of_error hr
    exact (Prod.mk.inj h).2.symm
  · obtain ⟨hv, rfl⟩ := Prod.mk.inj h
    exact (hwhole.of_ok hr).2 (Except.ok.inj hv)

mutual

/-- All candidates are tried on the same tree. -/
theorem on_constructOn_congr {resolve' : ReferenceType → Edit ReferenceValue} {t : Tree}
    (hw : ∀ {t : Tree}, t.Pliable → ∀ r, Whole (resolve r) t) (ht : t.Pliable) (raw : Value) :
    ∀ type : LeafType, (∀ r ∈ type.references, (resolve r).on t = (resolve' r).on t) →
      (constructOn resolve raw type).on t = (constructOn resolve' raw type).on t
  | .reference r, h => by
    rw [constructOn, constructOn]
    exact on_bind_congr (h r List.mem_cons_self) fun _ _ _ => rfl
  | .union candidates, h => by
    rw [LeafType.references_union] at h
    rw [constructOn, constructOn]
    split
    · split
      · rfl
      · exact on_bind_congr (on_constructFirstOn_congr hw ht raw candidates h) fun _ _ _ => rfl
    · rfl
  | .text _, _ | .int _, _ | .uint _, _ | .decimal _ _, _ | .bool, _ => by
    rw [on_constructOn_plain (by simp [LeafType.involvesReference]),
      on_constructOn_plain (by simp [LeafType.involvesReference])]

/-- A union is resolved alike where its references are. -/
theorem on_constructFirstOn_congr {resolve' : ReferenceType → Edit ReferenceValue} {t : Tree}
    (hw : ∀ {t : Tree}, t.Pliable → ∀ r, Whole (resolve r) t) (ht : t.Pliable) (raw : Value) :
    ∀ types : List LeafType,
      (∀ r ∈ LeafType.referencesOf types, (resolve r).on t = (resolve' r).on t) →
      (constructFirstOn resolve raw types).on t = (constructFirstOn resolve' raw types).on t
  | [], _ => by rw [constructFirstOn, constructFirstOn]
  | type :: types, h => by
    rw [LeafType.referencesOf_cons] at h
    rw [constructFirstOn, constructFirstOn]
    refine on_bind_congr (on_tryCatch_congr (on_constructOn_congr hw ht raw type fun r hr =>
      h r (List.mem_append_left _ hr))) fun v t' hv => ?_
    cases v with
    | some v => rfl
    | none =>
      obtain rfl := eq_of_tried hw ht hv
      exact on_constructFirstOn_congr hw ht raw types fun r hr => h r (List.mem_append_right _ hr)

end

mutual

/-- A pointer is made for one of the references of the type. -/
theorem exists_reference_of_constructOn {path : String} {t t' : Tree}
    (hw : ∀ {t : Tree}, t.Pliable → ∀ r, Whole (resolve r) t) (ht : t.Pliable) (raw : Value) :
    ∀ {type : LeafType}, (constructOn resolve raw type).on t =
      (.ok (some (.reference (.pointer path))), t') →
      ∃ r ∈ type.references, (resolve r).on t = (.ok (.pointer path), t')
  | .reference r, h => by
    rw [constructOn, on_bind] at h
    generalize hr : (resolve r).on t = result at h
    obtain ⟨err | v, t₁⟩ := result
    · cases h
    · obtain ⟨hv, rfl⟩ := Prod.mk.inj h
      cases hv
      exact ⟨r, List.mem_cons_self, hr⟩
  | .union candidates, h => by
    rw [LeafType.references_union]
    rw [constructOn] at h
    split at h
    · split at h
      · cases h
      · rw [on_bind] at h
        generalize hr : (constructFirstOn resolve raw candidates).on t = result at h
        obtain ⟨err | v | v, t₁⟩ := result
        · cases h
        · cases h
        · obtain ⟨hv, rfl⟩ := Prod.mk.inj h
          cases hv
          exact exists_reference_of_constructFirstOn hw ht raw hr
    · exact absurd (Prod.mk.inj h).1 LeafType.not_pointer_of_construct
  | .text _, h | .int _, h | .uint _, h | .decimal _ _, h | .bool, h => by
    rw [on_constructOn_plain (by simp [LeafType.involvesReference])] at h
    exact absurd (Prod.mk.inj h).1 LeafType.not_pointer_of_construct

/-- A pointer comes of a member of the union that is a reference. -/
theorem exists_reference_of_constructFirstOn {path : String} {t t' : Tree}
    (hw : ∀ {t : Tree}, t.Pliable → ∀ r, Whole (resolve r) t) (ht : t.Pliable) (raw : Value) :
    ∀ {types : List LeafType},
      (constructFirstOn resolve raw types).on t = (.ok (some (.reference (.pointer path))), t') →
      ∃ r ∈ LeafType.referencesOf types, (resolve r).on t = (.ok (.pointer path), t')
  | [], h => by
    rw [constructFirstOn] at h
    cases h
  | type :: types, h => by
    rw [LeafType.referencesOf_cons]
    rw [constructFirstOn, on_bind] at h
    generalize hr : (tryCatch (constructOn resolve raw type) fun _ => pure none).on t = result at h
    obtain ⟨err | v | v, t₁⟩ := result
    · cases h
    · obtain rfl := eq_of_tried hw ht hr
      obtain ⟨r, hm, hres⟩ := exists_reference_of_constructFirstOn hw ht raw h
      exact ⟨r, List.mem_append_right _ hm, hres⟩
    · obtain ⟨hv, rfl⟩ := Prod.mk.inj h
      cases hv
      rw [on_tryCatch] at hr
      generalize hmade : (constructOn resolve raw type).on t = made at hr
      obtain ⟨err | w, t₂⟩ := made
      · cases hr
      · obtain ⟨rfl, rfl⟩ : w = _ ∧ t₂ = _ := by simpa using hr
        obtain ⟨r, hm, hres⟩ := exists_reference_of_constructOn hw ht raw hmade
        exact ⟨r, List.mem_append_left _ hm, hres⟩

end

end

/-! ## Assigning -/

/-- **Assigning comes to an end**: with more fuel an assignment does the same. -/
theorem Ends.assignFrom_succ (ht : t.Pliable) (h : t.Ends n x) (raw : Value) :
    (assignFrom n x raw).on t = (assignFrom (n + 1) x raw).on t := by
  induction n generalizing x with
  | zero => exact h.elim
  | succ n ih =>
    rw [assignFrom, assignFrom]
    refine on_bind_congr rfl fun p t₁ hp => ?_
    obtain rfl : t = t₁ := (Prod.mk.inj hp).2
    refine on_bind_congr rfl fun e t₁ hget => ?_
    obtain ⟨hel, rfl⟩ := Prod.mk.inj hget
    have he : t.element? x = some e := element_eq_ok_iff.1 hel
    refine on_bind_congr rfl fun type t₁ hof => ?_
    obtain ⟨htype, rfl⟩ := Prod.mk.inj hof
    obtain ⟨slot, hslot, rfl⟩ := leafType_eq_ok_iff.1 htype
    refine on_bind_congr ?_ fun _ _ _ => rfl
    refine on_constructOn_congr
      (fun ht r => whole_resolveWith (whole_assignFrom n) ht r x raw) ht raw slot.type
      fun r hr => on_resolveWith_congr he fun y hy => ?_
    exact ih (h y ((mem_leadsOn_of_leaf he hslot).2 (.inr (.inr ⟨r, hr, hy⟩))))

/-! ## Leading on to nothing new -/

/-- The frames of elements and the registry are what they were, and nothing leads on to more
than before. -/
structure Abides (t t' : Tree) : Prop extends SameFrame t t' where
  registry : t'.registry = t.registry
  leadsOn : ∀ x, t'.leadsOn x ⊆ t.leadsOn x

instance : IsPreorder Tree Abides where
  refl t := ⟨refl_of SameFrame t, rfl, fun _ => List.Subset.refl _⟩
  trans _ _ _ h h' :=
    ⟨trans_of SameFrame h.toSameFrame h'.toSameFrame, h'.registry.trans h.registry,
      fun x => List.Subset.trans (h'.leadsOn x) (h.leadsOn x)⟩

/-- Nothing that led in no circle does so now. -/
theorem Abides.acyclic (h : t.Abides t') (ha : t.Acyclic) : t'.Acyclic := fun x hx =>
  ha x (Relation.TransGen.mono (fun y _ hz => h.leadsOn y hz) _ _ hx)

/-- What paths lead to depends on the registry. -/
theorem targetsFrom_congr (hr : t'.registry = t.registry) (hb : e'.bare = e.bare) (path : String) :
    t'.targetsFrom e' path = t.targetsFrom e path := by
  rw [targetsFrom, targetsFrom, Element.registers_of_bare hb, Element.path_of_bare hb, hr]

theorem aliased_congr (hr : t'.registry = t.registry) (hb : e'.bare = e.bare) (path : String) :
    t'.aliased e' path = t.aliased e path := by rw [aliased, aliased, targetsFrom_congr hr hb]

/-- A leaf beside another one is found in the same frame. -/
theorem SameFrame.beside? (h : t.SameFrame t') (hb : e'.bare = e.bare) (field : String) :
    t'.beside? e' field = t.beside? e field := by
  rw [Tree.beside?, Tree.beside?, Element.parent_of_bare hb]
  cases e.parent with
  | none => rfl
  | some q =>
    cases hq : t.element? q with
    | none => rw [Option.bind_some, Option.bind_some, h.shrinks.element?_eq_none hq, hq]
    | some qe =>
      obtain ⟨qe', hqe', hf⟩ := h.symm.element? hq
      rw [Option.bind_some, Option.bind_some, hqe', hq, Option.bind_some, Option.bind_some,
        Element.setters_of_bare (Element.frame_eq_iff.1 hf).1.symm]

/-- What references lead to depends on frames and the registry. -/
theorem SameFrame.refersTo (h : t.SameFrame t') (hr : t'.registry = t.registry)
    (hb : e'.bare = e.bare) (r : ReferenceType) : t'.refersTo e' r = t.refersTo e r := by
  rw [Tree.refersTo, Tree.refersTo, aliased_congr hr hb]
  refine List.flatMap_congr fun y _ => ?_
  cases hy : t.element? y with
  | none => rw [h.shrinks.element?_eq_none hy]
  | some ye =>
    obtain ⟨ye', hye', hf⟩ := h.symm.element? hy
    have hbye := (Element.frame_eq_iff.1 hf).1.symm
    simp only [hye', Element.isLeaf_of_bare hbye, h.beside? hbye]

/-- Changing an element, so that what it holds now leads on to nothing new. -/
theorem abides_modifyElement {f : Element → Element}
    (h : ∀ e, t.element? id = some e → (f e).frame = e.frame ∧
    ∀ slot, (f e).content = .leaf slot → t.pointsTo e slot.value ⊆ t.leadsOn id) :
    t.Abides (t.modifyElement id f) := by
  have hs : t.SameFrame (t.modifyElement id f) := sameFrame_modifyElement fun e he => (h e he).1
  have haliased : ∀ {e e' : Element} value, e'.bare = e.bare →
      (t.modifyElement id f).pointsTo e' value = t.pointsTo e value := by
    intro e e' value hb
    unfold pointsTo
    split
    · exact aliased_congr rfl hb _
    · rfl
  refine ⟨hs, rfl, fun x y hy => ?_⟩
  cases hx : (t.modifyElement id f).element? x with
  | none =>
    rw [leadsOn_of_none hx] at hy
    cases hy
  | some e' =>
    obtain ⟨e, he, hf⟩ := hs.element? hx
    obtain ⟨hb, hchildren, hlinks⟩ := Element.frame_eq_iff.1 hf
    have hbelow : e'.below = e.below := by
      rw [Element.below_eq, Element.below_eq, hchildren, hlinks]
    by_cases hleaf : ∃ slot, e'.content = .leaf slot
    · obtain ⟨slot', hslot'⟩ := hleaf
      obtain ⟨value, hslot⟩ := Element.exists_leaf_of_bare hb.symm hslot'
      obtain hbel | hpoints | ⟨r, hr, hrefers⟩ := (mem_leadsOn_of_leaf hx hslot').1 hy
      · exact mem_leadsOn_of_below he (hbelow ▸ hbel)
      · rw [haliased _ hb] at hpoints
        by_cases hxi : x = id
        · subst hxi
          rw [element?_modifyElement_self he] at hx
          obtain rfl := Option.some.inj hx
          exact (h e he).2 slot' hslot' hpoints
        · rw [element?_modifyElement_of_ne hxi] at hx
          obtain rfl : e = e' := Option.some.inj (he.symm.trans hx)
          exact (mem_leadsOn_of_leaf he hslot').2 (.inr (.inl hpoints))
      · rw [hs.refersTo rfl hb] at hrefers
        exact (mem_leadsOn_of_leaf he hslot).2 (.inr (.inr ⟨r, hr, hrefers⟩))
    · refine mem_leadsOn_of_below he (hbelow ▸ ?_)
      rw [Tree.leadsOn, hx] at hy
      cases hc : e'.content with
      | leaf slot => exact absurd ⟨slot, hc⟩ hleaf
      | _ => simpa [hc] using hy

theorem abides_markChanged (ids : List ElementId) : Leads Abides (markChanged ids) := by
  refine leads_forM fun id _ => leads_update fun t e _ =>
    abides_modifyElement fun e he => ⟨rfl, fun slot hslot y hy => ?_⟩
  exact (mem_leadsOn_of_leaf he hslot).2 (.inr (.inl hy))

/-- What a pointer is made for leads on to nothing new, also where the value is stored later. -/
theorem Abides.store {slot : LeafSlot} {value : Option LeafValue} (h : t.Abides t')
    (he : t.element? id = some e) (hslot : e.content = .leaf slot)
    (hpoints : ∀ y ∈ t.pointsTo e value, ∃ r ∈ slot.type.references, y ∈ t.refersTo e r) :
    t'.Abides (t'.modifyElement id (Tree.store value)) := by
  refine abides_modifyElement fun e' he' => ⟨frame_store value e', fun slot'' hslot'' y hy => ?_⟩
  obtain ⟨e₀, he₀, hf⟩ := h.toSameFrame.element? he'
  obtain rfl : e = e₀ := Option.some.inj (he.symm.trans he₀)
  have hb := (Element.frame_eq_iff.1 hf).1
  obtain ⟨value', hslot'⟩ := Element.exists_leaf_of_bare hb hslot
  have hvalue : slot''.value = value := by
    simp only [Tree.store, hslot'] at hslot''
    rw [← Content.leaf.inj hslot'']
  have hpointsTo : t'.pointsTo e' value = t.pointsTo e value := by
    unfold pointsTo
    split
    · exact aliased_congr h.registry hb _
    · rfl
  rw [hvalue, hpointsTo] at hy
  obtain ⟨r, hr, hy⟩ := hpoints y hy
  rw [← h.toSameFrame.refersTo h.registry hb] at hy
  exact (mem_leadsOn_of_leaf he' hslot').2 (.inr (.inr ⟨r, hr, hy⟩))

/-- An assignment stores nothing that leads on to more than the references of the type do. -/
theorem abides_assignFrom (fuel : Nat) (id : ElementId) (raw : Value) :
    Leads (Given Caseless Abides) (assignFrom fuel id raw) := by
  refine leads_assignFrom_of_constructed
    (fun {t t' fuel id raw p e type value} hp he htype hvalue hrel ht => ?_) fuel id raw
  obtain ⟨-, habides⟩ := hrel ht
  obtain ⟨slot, hslot, rfl⟩ := leafType_eq_ok_iff.1 htype
  have hwhole :=
    fun {t : Tree} (ht : t.Pliable) r => whole_resolveWith (whole_assignFrom fuel) ht r id raw
  have hpoints : ∀ y ∈ t.pointsTo e value, ∃ r ∈ slot.type.references, y ∈ t.refersTo e r := by
    intro y hy
    unfold pointsTo at hy
    split at hy
    · next path =>
      obtain ⟨r, hr, hres⟩ := exists_reference_of_constructOn hwhole ht.pliable raw hvalue
      exact ⟨r, hr, (pointer_of_resolveWith he hres).2 hy⟩
    · cases hy
  have hlast : Leads Abides (markChanged p.marks) := abides_markChanged p.marks
  have hrest : t'.Abides ((do
      runUnsets p.unsets
      update id (store value)
      markChanged p.marks : Edit Unit).on t').2 := by
    rw [ht.unsets_eq_nil hp]
    refine rel_bind (refl_of Abides t') fun _ t₁ ht₁ => ?_
    obtain rfl : t' = t₁ := (Prod.mk.inj ht₁).2
    refine rel_bind ?_ fun _ t₂ _ => hlast t₂
    rw [on_update, element]
    cases t'.element? id with
    | none => exact refl_of Abides t'
    | some e' => exact habides.store he hslot hpoints
  have hall := trans_of Abides habides hrest
  exact ⟨ht.sameFrame hall.toSameFrame, hall⟩

end Tree

end DataTree
