import DataTree.Proofs.Atomic.Pliable
import DataTree.Proofs.Choice.Session

/-!
# DataTree.Proofs.Atomic.Assign

When an assignment that fails has changed nothing.

A value is constructed before anything happens, but the siblings are unset one after
another, and what was unset before one of them refuses is lost.

* On a pliable tree no sibling refuses, however long the chain of references is and
  whatever candidates of unions were tried before (`whole_assignFrom`).
* On any other tree the leaf has to be one without references, and then everything
  depends on its plan (`atomic_setLeaf`).
-/

namespace DataTree.Tree

open Edit Outcome

variable {t t' : Tree} {id : ElementId} {e : Element} {p : Plan} {raw : Value} {type : LeafType}

/-! ## Edits that happen as a whole or not at all -/

/-- The edit softens the tree, or fails and leaves it as it was. -/
def Whole {α : Type} (x : Edit α) (t : Tree) : Prop :=
  x.Ensures t (fun _ t' => t.Softens t') fun _ t' => t' = t

theorem whole_pure {α : Type} (a : α) (t : Tree) : Whole (pure a) t := refl_of Softens t

theorem whole_reading {α : Type} (f : Tree → Except Error α) (t : Tree) : Whole (reading f) t :=
  ensures_reading.2 ⟨fun _ _ => refl_of Softens t, fun _ _ => rfl⟩

/-- Looking first does not matter. -/
theorem whole_reading_bind {α β : Type} {f : Tree → Except Error α} {g : α → Edit β}
    (h : ∀ a, f t = .ok a → Whole (g a) t) : Whole (reading f >>= g) t :=
  ensures_reading_bind.2 ⟨h, fun _ _ => rfl⟩

/-! ## Constructing -/

/-- A value without references does not need the tree. -/
theorem whole_constructOn_plain {resolve : ReferenceType → Edit ReferenceValue}
    (h : type.involvesReference = false) :
    (constructOn resolve raw type).Ensures t
      (fun v t' => t.Softens t' ∧ (v = none → t' = t)) fun _ t' => t' = t := by
  rw [constructOn_eq h]
  exact ensures_reading.2 ⟨fun _ _ => ⟨refl_of Softens t, fun _ => rfl⟩, fun _ _ => rfl⟩

mutual

/-- Constructing a value changes the tree only if it gives one. -/
theorem whole_constructOn {resolve : ReferenceType → Edit ReferenceValue}
    (h : ∀ {t : Tree}, t.Pliable → ∀ r, Whole (resolve r) t) (raw : Value) :
    ∀ (type : LeafType) {t : Tree}, t.Pliable →
    (constructOn resolve raw type).Ensures t
      (fun v t' => t.Softens t' ∧ (v = none → t' = t)) fun _ t' => t' = t
  | .reference r, t, ht => by
    rw [constructOn]
    exact (h ht r).bind fun v t' hs => ⟨hs, fun hno => by cases hno⟩
  | .union candidates, t, ht => by
    rw [constructOn]
    split
    · split
      · exact ⟨refl_of Softens t, fun _ => rfl⟩
      · refine ((whole_constructFirstOn h raw candidates ht).mono (fun _ _ hd => hd)
          fun _ _ hf => hf.elim).bind fun v t' hv => ?_
        cases v with
        | none => exact hv.2 rfl
        | some v => exact ⟨hv.1, fun hno => by cases hno⟩
    · exact ensures_reading.2 ⟨fun _ _ => ⟨refl_of Softens t, fun _ => rfl⟩, fun _ _ => rfl⟩
  | .text _, t, _ => whole_constructOn_plain (by simp [LeafType.involvesReference])
  | .int _, t, _ => whole_constructOn_plain (by simp [LeafType.involvesReference])
  | .uint _, t, _ => whole_constructOn_plain (by simp [LeafType.involvesReference])
  | .decimal _ _, t, _ => whole_constructOn_plain (by simp [LeafType.involvesReference])
  | .bool, t, _ => whole_constructOn_plain (by simp [LeafType.involvesReference])

/-- Trying candidates cannot fail, and changes the tree only if one of them accepts. -/
theorem whole_constructFirstOn {resolve : ReferenceType → Edit ReferenceValue}
    (h : ∀ {t : Tree}, t.Pliable → ∀ r, Whole (resolve r) t) (raw : Value) :
    ∀ (types : List LeafType) {t : Tree}, t.Pliable →
    (constructFirstOn resolve raw types).Ensures t
      (fun v t' => t.Softens t' ∧ (v = none → t' = t)) fun _ _ => False
  | [], t, _ => by
    rw [constructFirstOn]
    exact ⟨refl_of Softens t, fun _ => rfl⟩
  | type :: types, t, ht => by
    rw [constructFirstOn]
    have htry : (tryCatch (constructOn resolve raw type) fun _ => pure none).Ensures t
        (fun v t' => t.Softens t' ∧ (v = none → t' = t)) fun _ _ => False := by
      rw [ensures_tryCatch]
      refine (whole_constructOn h raw type ht).mono (fun _ _ hd => hd) fun _ t' hf => ?_
      subst hf
      exact ⟨refl_of Softens t', fun _ => rfl⟩
    refine htry.bind fun v t' hv => ?_
    cases v with
    | none =>
      obtain rfl := hv.2 rfl
      exact whole_constructFirstOn h raw types ht
    | some v => exact ⟨hv.1, fun hno => by cases hno⟩

end

/-! ## Assigning -/

theorem whole_writeThrough {assign : ElementId → Value → Edit Unit}
    (h : ∀ {t : Tree}, t.Pliable → ∀ id raw, Whole (assign id raw) t) (ht : t.Pliable)
    (target : Element) (field : String) (raw : Value) :
    Whole (writeThrough assign target field raw) t := by
  unfold writeThrough get
  split
  · exact (rfl : t = t)
  · refine whole_reading_bind fun parent _ => whole_reading_bind fun leaf _ => ?_
    exact h ht leaf raw

theorem whole_resolveWith {assign : ElementId → Value → Edit Unit}
    (h : ∀ {t : Tree}, t.Pliable → ∀ id raw, Whole (assign id raw) t) (ht : t.Pliable)
    (r : ReferenceType) (caller : ElementId) (raw : Value) :
    Whole (resolveWith assign r caller raw) t := by
  unfold resolveWith get
  refine whole_reading_bind fun e _ => ?_
  split
  · exact whole_pure _ t
  refine whole_reading_bind fun found _ => ?_
  extract_lets finish decide?
  have hd : ∀ target?, Whole (decide? target?) t := by
    intro target?
    cases target? with
    | none => exact whole_reading _ t
    | some target =>
      show Whole (ite _ _ _) t
      split
      · exact (whole_writeThrough h ht target _ raw).bind fun _ t' hs => hs
      · exact whole_pure _ t
  split
  · refine whole_reading_bind fun target _ => ?_
    exact hd _
  · exact hd none

/-- What follows the construction of a value cannot fail if the unsets do not, and leave what
is to be marked. -/
theorem ensures_store (hid : id ∈ p.marks) (value : Option LeafValue)
    (h : ∀ x ∈ p.marks, (t.element? x).isSome) :
    (do update id (store value)
        markChanged p.marks : Edit Unit).Ensures t (fun _ t' => t.Softens t') fun _ _ => False := by
  rw [ensures_bind, ensures_update]
  refine ⟨fun _ _ => ?_, fun hnone => ?_⟩
  · have hstored : t.Softens (t.modifyElement id (store value)) := softens_store value
    have hmarks : (markChanged p.marks).Ensures (t.modifyElement id (store value)) (fun _ _ => True)
        fun _ _ => False := by
      refine ensures_markChanged fun x hx => ?_
      rw [hstored.toSameFrame.isSome]
      exact h x hx
    refine (hmarks.and ((softens_markChanged p.marks).ensures _)).mono (fun _ t' hd => ?_)
      fun _ _ hf => hf.1
    exact trans_of Softens hstored hd.2
  · have hsome := h id hid
    rw [hnone] at hsome
    cases hsome

/-- **Chains of references**: on a pliable tree an assignment happens as a whole or not at
all, however many leaves it goes through. -/
theorem whole_assignFrom (fuel : Nat) : ∀ {t : Tree}, t.Pliable → ∀ id raw,
    Whole (assignFrom fuel id raw) t := by
  induction fuel with
  | zero => exact fun _ _ _ => rfl
  | succ fuel ih =>
    intro t ht id raw
    unfold assignFrom get
    refine whole_reading_bind fun p hp => whole_reading_bind fun e _ =>
      whole_reading_bind fun type _ => ?_
    have hconstruct := whole_constructOn (fun ht r => whole_resolveWith ih ht r id raw) raw type ht
    refine (hconstruct.mono (fun _ _ hd => hd.1) fun _ _ hf => hf).bind fun value t₁ hs₁ => ?_
    have hrun : (runUnsets p.unsets).Ensures t₁ (fun _ => t₁.Softens) fun _ _ => False :=
      ensures_runUnsets_of_mild fun _ hm => (ht.mild_of_planFrom hp hm).softens hs₁
    refine (hrun.mono (fun _ _ hd => hd) fun _ _ hf => hf.elim).bind fun _ t₂ hs₂ => ?_
    have hs := trans_of Softens hs₁ hs₂
    have hstore := ensures_store (t := t₂) (mem_marks_of_planFrom hp) value fun x hx => by
      obtain ⟨xe, hxe⟩ := exists_of_mem_marks hp hx
      rw [hs.toSameFrame.isSome, hxe]
      rfl
    exact hstore.mono (fun _ _ hd => trans_of Softens hs hd) fun _ _ hf => hf.elim

theorem whole_setLeaf (ht : t.Pliable) (id : ElementId) (raw : Value) :
    Whole (setLeaf id raw) t := by
  unfold setLeaf
  exact whole_reading_bind fun t₀ _ => whole_assignFrom _ ht id raw

/-! ## Failing without a trace -/

/-- If the assignment fails, the tree is what it was: the values, items and entries of all
elements, their marks, their registrations, and what was told. -/
def Atomic (t : Tree) (id : ElementId) (raw : Value) : Prop :=
  ∀ ⦃err t'⦄, (setLeaf id raw).on t = (.error err, t') → t' = t

/-- The unsets of a plan leave everything that the plan marks, or fail before they have changed
anything. -/
def Carries (t : Tree) (p : Plan) : Prop :=
  (runUnsets p.unsets).Ensures t (fun _ t' => ∀ x ∈ p.marks, (t'.element? x).isSome)
    fun _ t' => t' = t

/-- The value of a leaf without references is stored after the unsets. -/
theorem on_setLeaf {value : Option LeafValue} (hp : t.plan id none = .ok p)
    (he : t.element? id = some e) (htype : leafType e = .ok type)
    (hplain : type.involvesReference = false) (hv : type.construct raw = .ok value) :
    (setLeaf id raw).on t = (do
      runUnsets p.unsets
      update id (store value)
      markChanged p.marks : Edit Unit).on t := by
  have hel : t.element id = .ok e := element_eq_ok_iff.2 he
  have hconstruct : constructOn (fun r => resolveWith (assignFrom t.slots.size) r id raw) raw type
      = ofExcept (.ok value) := by rw [constructOn_eq hplain, hv]
  simp only [setLeaf, on_bind, on_reading, assignFrom, hp, on_get, hel, on_ofExcept,
    htype, hconstruct]

/-- A plan that can be carried out makes the assignment atomic. -/
theorem whole_of_carries {value : Option LeafValue} (hp : t.plan id none = .ok p)
    (hc : t.Carries p) :
    (do runUnsets p.unsets
        update id (store value)
        markChanged p.marks : Edit Unit).Ensures t (fun _ _ => True) fun _ t' => t' = t := by
  refine Ensures.bind hc fun _ t₁ hmarks => ?_
  exact (ensures_store (mem_marks_of_planFrom hp) value hmarks).mono (fun _ _ _ => trivial)
    fun _ _ hf => hf.elim

/-- A plan that cannot be carried out leaves traces. -/
theorem carries_of_whole (value : Option LeafValue) (hp : t.plan id none = .ok p)
    (h : (do runUnsets p.unsets
             update id (store value)
             markChanged p.marks : Edit Unit).Ensures t (fun _ _ => True) fun _ t' => t' = t) :
    t.Carries p := by
  have hlive : ∀ x ∈ p.marks, (t.element? x).isSome := by
    intro x hx
    obtain ⟨xe, hxe⟩ := exists_of_mem_marks hp hx
    rw [hxe]
    rfl
  rw [ensures_bind] at h
  refine h.mono (fun _ t₁ h₁ x hx => ?_) fun _ _ hf => hf
  by_contra hgone
  have hsame : ∀ {t₂}, t₁.SameFrame t₂ → t₂ ≠ t := by
    rintro t₂ hs rfl
    exact hgone (hs.isSome x ▸ hlive x hx)
  rw [ensures_bind, ensures_update] at h₁
  cases hid : t₁.element? id with
  | none => exact hsame (refl_of SameFrame t₁) (h₁.2 hid)
  | some e =>
    have hstored : t₁.SameFrame (t₁.modifyElement id (store value)) :=
      sameFrame_modifyElement fun e _ => frame_store value e
    have hall := ((h₁.1 e hid).and (isSome_of_markChanged p.marks _)).and
      ((sameFrame_markChanged p.marks).ensures _)
    -- Marking can neither succeed, as an element is missing, nor fail without a trace.
    refine absurd hall fun hall => ?_
    rw [ensures_iff] at hall
    cases hon : (markChanged p.marks).on (t₁.modifyElement id (store value)) with
    | mk r t₂ =>
      cases r with
      | ok u =>
        obtain ⟨⟨-, hmarks⟩, hs⟩ := hall.1 u t₂ hon
        have hx' := hmarks x hx
        rw [(trans_of SameFrame hstored hs).isSome] at hx'
        exact hgone hx'
      | error err =>
        obtain ⟨⟨htrace, -⟩, hs⟩ := hall.2 err t₂ hon
        exact hsame (trans_of SameFrame hstored hs) htrace

/-- **Atomic assignment**: on a pliable tree every assignment that fails leaves the tree as it
was.  On any tree whatever, an assignment to a leaf without references does so exactly if its
plan can be carried out, or the value is refused. -/
theorem atomic_setLeaf (t : Tree) (id : ElementId) (raw : Value) :
    (t.Pliable → t.Atomic id raw) ∧
      ∀ {e type}, t.element? id = some e → leafType e = .ok type → type.involvesReference = false →
        (t.Atomic id raw ↔
          ∀ {p value}, t.plan id none = .ok p → type.construct raw = .ok value → t.Carries p) := by
  constructor
  · intro ht err t' hfail
    exact (whole_setLeaf ht id raw).of_error hfail
  · intro e type he htype hplain
    constructor
    · intro hatomic p value hp hv
      refine carries_of_whole value hp (ensures_iff.2 ⟨fun _ _ _ => trivial, ?_⟩)
      intro err t' hfail
      exact hatomic (by rw [on_setLeaf hp he htype hplain hv, hfail])
    · intro hcarries err t' hfail
      cases hp : t.plan id none with
      | error err' =>
        simp only [setLeaf, on_bind, on_reading, assignFrom, hp] at hfail
        exact (Prod.mk.inj hfail).2.symm
      | ok p =>
        cases hv : type.construct raw with
        | error err' =>
          have hel : t.element id = .ok e := element_eq_ok_iff.2 he
          simp only [setLeaf, on_bind, on_reading, assignFrom, hp, on_get, hel, on_ofExcept, htype,
            constructOn_eq hplain, hv] at hfail
          exact (Prod.mk.inj hfail).2.symm
        | ok value =>
          rw [on_setLeaf hp he htype hplain hv] at hfail
          exact (whole_of_carries hp (hcarries hp hv)).of_error hfail

/-! ## Sessions -/

/-- A leaf that is an alias of `speed` or a switch, and another one of the other case. -/
def limits : Blueprint :=
  .container
    [⟨"speed", none, .leaf .uint8⟩,
      ⟨"limit", some ⟨"policy", "limited"⟩, .leaf (.union [.reference ⟨"../speed", false⟩, .bool])⟩,
      ⟨"reason", some ⟨"policy", "open"⟩, .leaf .string⟩]

/-- Nothing is limited, for a reason. -/
def unlimited : Tree :=
  let made := (Operation.instantiate limits { name := "port", registers := true }).after {}
  (Operation.setLeaf ⟨3⟩ (.text "lab")).after made

theorem pliable_unlimited : unlimited.Pliable := by
  have hmade : Grows limits { name := "port", registers := true } _ := .refl
  have hgrows : Grows limits { name := "port", registers := true } unlimited :=
    hmade.andThen (.setLeaf ⟨3⟩ (.text "lab")) trivial
  have ho := orderly_of_grows rfl hgrows
  have hnone : ∀ id ∈ unlimited.ids, (unlimited.keyedList id).isOk = false := by decide +kernel
  refine ho.sound.pliable ho.arranged fun {id e k m c y ye l} _ _ _ _ hye hl => ?_
  have hlist := hnone y (mem_ids_iff.2 ⟨ye, hye⟩)
  rw [keyedList, listFor_eq_ok_iff.2 ⟨ye, hye, hl⟩] at hlist
  cases hlist

/-- A limit that is neither a speed nor a switch is refused, and the reason stays. -/
theorem atomic_unlimited :
    ∃ err, (setLeaf ⟨2⟩ (.text "fast")).on unlimited = (.error err, unlimited) := by
  have hfails : ((setLeaf ⟨2⟩ (.text "fast")).on unlimited).1.isOk = false := by decide +kernel
  cases hon : (setLeaf ⟨2⟩ (.text "fast")).on unlimited with
  | mk r t' =>
    cases r with
    | ok u => rw [hon] at hfails; cases hfails
    | error err =>
      have hsame := (atomic_setLeaf unlimited ⟨2⟩ (.text "fast")).1 pliable_unlimited hon
      exact ⟨err, by rw [hsame]⟩

/-- Trees that are put together by hand: by operations, and by declaring members of choices
and binding hooks to fields. -/
inductive Assembled : Tree → Prop
  | empty : Assembled {}
  | operate (op : Operation) {t : Tree} : Assembled t → Assembled (op.after t)
  | declare (id : ElementId) (case : Case) (field : String) {t : Tree} : Assembled t →
      Assembled ((declareMember id case field).on t).2
  | bind (id : ElementId) (field : String) (hook : Unset) {t : Tree} : Assembled t →
      Assembled ((bindUnsetter id field hook).on t).2

/-- A counter as a content. -/
def counter : Content := .custom (.counter 0)

theorem isFresh_counter : counter.IsFresh :=
  ⟨Base.proper_counter 0, rfl, fun hl => by cases hl⟩

/-- One of two leaves, and a counter that was added to the choice by hand. -/
def counted : Tree :=
  let schema : Blueprint := .container
    [⟨"x", some ⟨"c", "a"⟩, .leaf .string⟩, ⟨"y", some ⟨"c", "b"⟩, .leaf .string⟩]
  let made := (Operation.instantiate schema { name := "root" }).after {}
  let set := (Operation.setLeaf ⟨2⟩ (.text "kept")).after made
  let wrapped :=
    (Operation.wrap counter { name := "n", parent := some ⟨0⟩ } isFresh_counter).after set
  let declared := ((declareMember ⟨0⟩ ⟨"c", "k"⟩ "n").on wrapped).2
  ((bindUnsetter ⟨0⟩ "n" (.contents ⟨3⟩)).on declared).2

theorem assembled_counted : Assembled counted :=
  .bind ⟨0⟩ "n" (.contents ⟨3⟩) <| .declare ⟨0⟩ ⟨"c", "k"⟩ "n" <|
    .operate (.wrap counter { name := "n", parent := some ⟨0⟩ } isFresh_counter) <|
      .operate (.setLeaf ⟨2⟩ (.text "kept")) <| .operate (.instantiate _ { name := "root" }) .empty

/-- A counter cannot be unset, and before it refuses the leaf beside it is lost. -/
theorem not_atomic_counted : ¬ ∀ t id raw, Assembled t → t.Atomic id raw := by
  intro hall
  have hatomic := hall counted ⟨1⟩ (.text "new") assembled_counted
  have hfails : ((setLeaf ⟨1⟩ (.text "new")).on counted).1.isOk = false := by decide +kernel
  have hbefore : (counted.element? ⟨2⟩).any (·.content.holdsData) = true := by decide +kernel
  have hafter : (((setLeaf ⟨1⟩ (.text "new")).on counted).2.element? ⟨2⟩).any (·.content.holdsData)
      = false := by decide +kernel
  cases hon : (setLeaf ⟨1⟩ (.text "new")).on counted with
  | mk r t' =>
    cases r with
    | ok u => rw [hon] at hfails; cases hfails
    | error err =>
      rw [hon, hatomic hon, hbefore] at hafter
      cases hafter

end DataTree.Tree
