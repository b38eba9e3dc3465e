import DataTree.Proofs.Keys.Parts
import DataTree.Proofs.Keys.Shelter

/-!
# DataTree.Proofs.Keys.Entry

Assigning the key of a new entry.

The parts are assigned one after another, so a later assignment may displace an earlier
one: if a key leaf is named twice, or if two key leaves belong to rival cases.  All other
key leaves hold in the end what their types make of their parts, and the older entries of
the list stay as they are (`Waits.ensures_assignKey`).
-/

namespace DataTree

open Edit Outcome

namespace ListSchema

/-- The field is a leaf of the entries, and has the type. -/
def KeyType (s : ListSchema Schema) (field : String) (type : LeafType) : Prop :=
  ∃ case default, ⟨field, case, .leaf type default⟩ ∈ s.entry

theorem KeyType.unique {s : ListSchema Schema} {field : String} {type type' : LeafType}
    (hd : Schema.DistinctChildren s.entry) (h : s.KeyType field type)
    (h' : s.KeyType field type') : type = type' := by
  obtain ⟨case, default, hm⟩ := h
  obtain ⟨case', default', hm'⟩ := h'
  have heq := List.inj_on_of_nodup_map hd.1 hm hm' rfl
  simp only [Child.mk.injEq, Schema.leaf.injEq, true_and] at heq
  exact heq.2.1

/-- There is no reference among the types of the key leaves. -/
def PlainKeys (s : ListSchema Schema) : Prop :=
  ∀ field ∈ s.key.fields, ∀ type, s.KeyType field type → type.involvesReference = false

/-- No leaf of an entry has a reference, which can be seen at once. -/
def hasPlainLeaves (s : ListSchema Schema) : Bool :=
  s.entry.all fun child =>
    match child.node with
    | .leaf type _ => !type.involvesReference
    | _ => true

theorem plainKeys_of_leaves {s : ListSchema Schema} (h : s.hasPlainLeaves = true) :
    s.PlainKeys := by
  intro field _ type htype
  obtain ⟨case, default, hm⟩ := htype
  simpa using List.all_eq_true.1 h _ hm

/-- Assigning to the field `g` displaces what the field `f` holds: it is the same field, or one
in a rival case. -/
def Displaces (s : ListSchema Schema) (g f : String) : Prop :=
  g = f ∨ ∃ k k' n n', ⟨g, some k, n⟩ ∈ s.entry ∧ ⟨f, some k', n'⟩ ∈ s.entry ∧ k.Rivals k'

end ListSchema

namespace Tree

variable {t₀ t t' : Tree} {id entry c x y : ElementId} {e ce : Element} {p : Plan} {fuel : Nat}
  {active : Option Case} {hooks : List Unset} {schema : Schema} {node : ElementId → Schema}
  {s : ListSchema Schema} {g field part : String} {pairs : List (String × String)}

/-- A plan that is made later could have been made before. -/
theorem Shrinks.planFrom (hs : t.Shrinks t') (hp : t'.planFrom fuel x active = .ok p) :
    t.planFrom fuel x active = .ok p := by
  induction fuel generalizing x active p with
  | zero => cases hp
  | succ fuel ih =>
    obtain ⟨e', hooks, he', hh, hrest⟩ := planFrom_succ_eq_ok.1 hp
    obtain ⟨e, he, hse⟩ := hs.element he'
    rw [Element.parent_of_bare hse.bare, Element.case_of_bare hse.bare] at hrest
    rw [siblingHooks_of_bare hse.bare] at hh
    refine planFrom_succ_eq_ok.2 ⟨e, hooks, he, hh, hrest.imp_right fun habove => ?_⟩
    obtain ⟨parent, above, hpar, ha, rfl⟩ := habove
    exact ⟨parent, above, hpar, ih ha, rfl⟩

theorem mem_setters_of_setterFor {owner : String} (h : setterFor e owner field = .ok x) :
    Assoc.get? field e.setters = some x := by
  unfold setterFor at h
  split at h
  · next hget =>
    rw [hget, Except.ok.inj h]
  · cases h

/-- What a plan for a child of an entry unsets and marks: the siblings of the child, and what the
plan of the list unsets on behalf of the case of the child; the child, the entry, and what the plan
of the list marks. -/
theorem Sound.plan_of_field {pending : Set ElementId} (h : Sound t pending)
    (hce : t.element? entry = some ce) (hentry : ce.parent = some id) (hcase : ce.case = none)
    (hx : t.element? x = some e) (hpar : e.parent = some entry) (hp : t.plan x none = .ok p) :
    ∃ own fuel above, siblingHooks ce e.case = .ok own ∧ t.planFrom fuel id e.case = .ok above ∧
      p.unsets = own ++ above.unsets ∧ p.marks = x :: entry :: above.marks := by
  obtain ⟨e', hooks, he', hh, hrest⟩ := planFrom_succ_eq_ok.1 hp
  obtain rfl : e = e' := Option.some.inj (hx.symm.trans he')
  obtain rfl : hooks = [] := (Except.ok.inj hh).symm
  obtain ⟨hroot, -⟩ | ⟨parent, above, hparent, ha, rfl⟩ := hrest
  · rw [hpar] at hroot
    cases hroot
  obtain rfl : entry = parent := Option.some.inj (hpar.symm.trans hparent)
  obtain ⟨fuel, hfuel⟩ : ∃ fuel, x.index = fuel + 1 := by
    have hlt := h.parent_lt hx hpar
    exact ⟨x.index - 1, by omega⟩
  rw [hfuel] at ha
  obtain ⟨ce₁, own, hce₁, hown, hrest⟩ := planFrom_succ_eq_ok.1 ha
  obtain rfl : ce = ce₁ := Option.some.inj (hce.symm.trans hce₁)
  obtain ⟨hroot, -⟩ | ⟨parent, above', hparent, ha', rfl⟩ := hrest
  · rw [hentry] at hroot
    cases hroot
  obtain rfl : id = parent := Option.some.inj (hentry.symm.trans hparent)
  refine ⟨own, fuel, above', hown, ?_, rfl, rfl⟩
  cases hc : e.case with
  | none => simpa [hc, hcase] using ha'
  | some k => simpa [hc, hcase] using ha'

/-- The key leaf `field` of the entry `c` holds what its type makes of the part. -/
def Takes (t : Tree) (c : ElementId) (field part : String) : Prop :=
  ∃ ce leaf slot v, t.element? c = some ce ∧ Assoc.get? field ce.setters = some leaf ∧
    t.held leaf = some (.leaf slot) ∧ slot.value = some v ∧
    slot.type.construct (.text part) = .ok (some v)

/-- The key leaves hold what their types make of the parts, but for those that later ones have
displaced. -/
def Keyed (t : Tree) (s : ListSchema Schema) (c : ElementId) (pairs : List (String × String)) :
    Prop :=
  ∀ before field part after, pairs = before ++ (field, part) :: after →
    (∀ q ∈ after, ¬ s.Displaces q.1 field) → t.Takes c field part

/-- A new entry of the list `id` waits for its key. -/
structure Waits (t : Tree) (schema : Schema) (node : ElementId → Schema) (s : ListSchema Schema)
    (id entry : ElementId) : Prop where
  sound : Sound t {entry}
  follows : t.Follows schema node
  node_eq : node entry = .ofEntry s
  lt : id.index < entry.index
  list : ∃ e l, t.element? id = some e ∧ e.content = .list l
  element : ∃ ce, t.element? entry = some ce ∧ ce.parent = some id ∧ ce.case = none

namespace Waits

/-- What a plan for a key leaf unsets. -/
theorem unsets_eq (h : t.Waits schema node s id entry) (hce : t.element? entry = some ce)
    (hx : t.element? x = some e) (hpar : e.parent = some entry) (hp : t.plan x none = .ok p) :
    ∃ own fuel above, siblingHooks ce e.case = .ok own ∧ t.planFrom fuel id e.case = .ok above ∧
      p.unsets = own ++ above.unsets := by
  obtain ⟨ce', hce', hentry, hcase⟩ := h.element
  obtain rfl : ce = ce' := Option.some.inj (hce.symm.trans hce')
  obtain ⟨own, fuel, above, hown, habove, hunsets, -⟩ :=
    h.sound.plan_of_field hce hentry hcase hx hpar hp
  exact ⟨own, fuel, above, hown, habove, hunsets⟩

/-- A child of the entry is under nothing but itself and the entry. -/
theorem eq_or_eq_of_under (h : t.Waits schema node s id entry) (hy : t.element? y = some e)
    (hpar : e.parent = some entry) (hu : t.Under c y) : c = y ∨ c = entry := by
  by_cases hne : y = c
  · exact .inl hne.symm
  obtain ⟨e', q, he', hq, hu', -⟩ := h.sound.parent_of_under hu hne
  obtain rfl : e = e' := Option.some.inj (hy.symm.trans he')
  obtain rfl : entry = q := Option.some.inj (hpar.symm.trans hq)
  by_contra hno
  have hne' : entry ≠ c := fun heq => hno (.inr heq.symm)
  exact h.sound.not_under_pending rfl hne' hu'

/-- A setter of the entry is for a child of that name. -/
theorem of_setter (h : t.Waits schema node s id entry) (hce : t.element? entry = some ce)
    (hg : Assoc.get? g ce.setters = some x) (hx : t.element? x = some e) :
    e.parent = some entry ∧ e.name = g :=
  (h.sound.setter hce (Assoc.mem_of_get?_eq_some hg)).2 e hx

/-- That child is declared for the entry, with its case. -/
theorem exists_decl (h : t.Waits schema node s id entry) (hce : t.element? entry = some ce)
    (hg : Assoc.get? g ce.setters = some x) (hx : t.element? x = some e) :
    ∃ n, ⟨g, e.case, n⟩ ∈ s.entry := by
  obtain ⟨hpar, rfl⟩ := h.of_setter hce hg hx
  have hnot : x ∉ ({entry} : Set ElementId) := by
    rintro rfl
    exact Nat.lt_irrefl _ (h.sound.parent_lt hx hpar)
  obtain ⟨ce₁, hce₁, hbelow⟩ := h.sound.listed hx hpar hnot
  obtain rfl : ce = ce₁ := Option.some.inj (hce.symm.trans hce₁)
  obtain ⟨name, hchild⟩ | ⟨l, key, hl, -⟩ := Element.mem_below hbelow
  · obtain ⟨-, -, e', hx', -, hname, -⟩ := h.sound.child hce hchild
    obtain rfl : e = e' := Option.some.inj (hx.symm.trans hx')
    obtain ⟨-, case, hdecl, hcase⟩ := h.follows.child hce hchild
    rw [h.node_eq, ← hcase hx, ← hname] at hdecl
    exact ⟨_, hdecl⟩
  · obtain ⟨default, hlist⟩ := h.follows.schema_eq hce hl
    rw [h.node_eq] at hlist
    cases hlist

/-- What is unset within the entry when `g` is assigned to is a field of a case that rivals its
own. -/
theorem sibling_leads (h : t.Waits schema node s id entry) (hce : t.element? entry = some ce)
    (hg : Assoc.get? g ce.setters = some x) (hx : t.element? x = some e)
    (hown : siblingHooks ce e.case = .ok hooks) (hm : .contents c ∈ hooks) :
    (t.Under id c → c = id) ∧ ∀ {f y ye}, Assoc.get? f ce.setters = some y →
      t.element? y = some ye → t.Under c y → s.Displaces g f := by
  obtain ⟨k, k', m, hk, hhas, hkk, hget⟩ := exists_rival_of_siblingHooks hown hm
  obtain ⟨c', hhook, hfield⟩ := h.sound.unsetter hce (Assoc.mem_of_get?_eq_some hget)
  obtain rfl := Unset.contents.inj hhook
  constructor
  · intro hu
    by_contra hne
    obtain ⟨cc, q, hcc, hq, hu', -⟩ := h.sound.parent_of_under hu hne
    obtain rfl : q = entry := Option.some.inj (hq.symm.trans (hfield.2 cc hcc).1)
    refine h.sound.not_under_pending rfl ?_ hu'
    rintro rfl
    exact Nat.lt_irrefl _ h.lt
  · intro f y ye hf hy hu
    obtain ⟨hypar, hyname⟩ := h.of_setter hce hf hy
    obtain rfl : c = y := by
      refine (h.eq_or_eq_of_under hy hypar hu).resolve_right ?_
      rintro rfl
      exact Nat.lt_irrefl _ (h.sound.parent_lt hce (hfield.2 ce hce).1)
    obtain rfl : f = m := hyname.symm.trans (hfield.2 ye hy).2
    obtain ⟨n, hdecl⟩ := h.exists_decl hce hg hx
    obtain ⟨n', hmember⟩ := h.follows.member hce hhas
    rw [hk] at hdecl
    rw [h.node_eq] at hmember
    exact .inr ⟨k, k', n, n', hdecl, hmember, hkk⟩

/-- What is unset above the list has neither entries nor key leaves below it. -/
theorem above_leads (h : t.Waits schema node s id entry) (hce : t.element? entry = some ce)
    (habove : t.planFrom fuel id active = .ok p) (hm : .contents c ∈ p.unsets) :
    (t.Under id c → c = id) ∧ ∀ {f y ye}, Assoc.get? f ce.setters = some y →
      t.element? y = some ye → ¬ t.Under c y := by
  obtain ⟨ce', hce', hpar, -⟩ := h.element
  obtain rfl : ce = ce' := Option.some.inj (hce.symm.trans hce')
  obtain ⟨e, l, he, hl⟩ := h.list
  have hout := h.follows.leadOut h.sound (fun y hy => hy ▸ h.lt) he hl habove
  refine ⟨hout.eq_of_under h.sound hm, fun {f y ye} hf hy hu => ?_⟩
  obtain ⟨hypar, -⟩ := h.of_setter hce hf hy
  obtain rfl | rfl := h.eq_or_eq_of_under hy hypar hu
  · obtain ⟨q, hq, hlt⟩ := hout hm hy
    obtain rfl : entry = q := Option.some.inj (hypar.symm.trans hq)
    have := h.lt
    omega
  · obtain ⟨q, hq, hlt⟩ := hout hm hce
    obtain rfl : id = q := Option.some.inj (hpar.symm.trans hq)
    exact absurd hlt (Nat.lt_irrefl _)

/-- The hooks that assigning to the field `g` runs do not lead into an older entry, and to
a key leaf only if its field is displaced. -/
theorem hooks_lead (h : t.Waits schema node s id entry) (hce : t.element? entry = some ce)
    (hg : Assoc.get? g ce.setters = some x) (hp : t.plan x none = .ok p)
    (hm : .contents c ∈ p.unsets) :
    (t.Under id c → c = id) ∧ ∀ {f y ye}, Assoc.get? f ce.setters = some y →
      t.element? y = some ye → t.Under c y → s.Displaces g f := by
  obtain ⟨xe, hx⟩ := exists_of_planFrom hp
  obtain ⟨own, fuel, above, hown, habove, hunsets⟩ :=
    h.unsets_eq hce hx (h.of_setter hce hg hx).1 hp
  rw [hunsets] at hm
  obtain hm | hm := List.mem_append.1 hm
  · exact h.sibling_leads hce hg hx hown hm
  · obtain ⟨hlist, hleaf⟩ := h.above_leads hce habove hm
    exact ⟨hlist, fun hf hy hu => absurd hu (hleaf hf hy)⟩

/-- The types of the key leaves have no references. -/
theorem plain_of_shrinks (h : t₀.Waits schema node s id entry) (hplain : s.PlainKeys)
    (hg : g ∈ s.key.fields)
    (hce : t₀.element? entry = some ce) (hx : Assoc.get? g ce.setters = some x) (hs : t₀.Shrinks t)
    {type : LeafType} (he : t.element? x = some e) (htype : leafType e = .ok type) :
    type.involvesReference = false := by
  obtain ⟨slot, hslot, rfl⟩ := leafType_eq_ok_iff.1 htype
  obtain ⟨default, hnode⟩ := (h.follows.shrinks hs).type_eq he hslot
  obtain ⟨-, case, hdecl⟩ := h.follows.setter hce (Assoc.mem_of_get?_eq_some hx)
  rw [h.node_eq, hnode] at hdecl
  exact hplain g hg _ ⟨case, default, hdecl⟩

/-- What assigning to the key leaf `g`, or failing to, leaves as it was. -/
theorem spares (h₀ : t₀.Waits schema node s id entry) (hce : t₀.element? entry = some ce)
    (hg : Assoc.get? g ce.setters = some x) (hs : t₀.Shrinks t) (hsound : Sound t {entry})
    (hsh : t₀.Shelters id t) (hput : Put x hooks {entry} t t')
    (hhooks : ∀ hook ∈ hooks, ∃ p, t.plan x none = .ok p ∧ hook ∈ p.unsets) :
    t₀.Shelters id t' ∧ ∀ {f y}, Assoc.get? f ce.setters = some y → y ≠ x → (t.element? y).isSome →
      ¬ s.Displaces g f → t'.held y = t.held y := by
  have hlead : ∀ {c}, .contents c ∈ hooks → (t₀.Under id c → c = id) ∧
      ∀ {f y ye}, Assoc.get? f ce.setters = some y → t₀.element? y = some ye → t₀.Under c y →
        s.Displaces g f := by
    intro c hm
    obtain ⟨p, hp, hm⟩ := hhooks _ hm
    exact h₀.hooks_lead hce hg (hs.planFrom hp) hm
  refine ⟨?_, fun {f y} hf hne hy hdis => hput.stays hne fun c hm hu => ?_⟩
  · by_cases hx : t₀.Under id x
    · obtain ⟨xe, hxe⟩ : ∃ xe, t₀.element? x = some xe := by
        obtain ⟨e, -, he, -⟩ := h₀.list
        obtain rfl | ⟨q, -, ha⟩ := Relation.ReflTransGen.cases_tail_iff _ _ _ |>.1 hx
        · exact ⟨e, he⟩
        · obtain ⟨-, -, xe, hxe, -⟩ := h₀.sound.of_above ha
          exact ⟨xe, hxe⟩
      obtain ⟨hxpar, -⟩ := h₀.of_setter hce hg hxe
      have hlt := h₀.lt
      obtain rfl | rfl := h₀.eq_or_eq_of_under hxe hxpar hx
      · have hlt' := h₀.sound.parent_lt hxe hxpar
        omega
      · exact absurd hlt (Nat.lt_irrefl _)
    · exact hsh.put h₀.sound hsound hs (fun c hm => (hlead hm).1) hx hput
  · obtain ⟨ye, hye⟩ := Option.isSome_iff_exists.1 hy
    obtain ⟨ye₀, hye₀, -⟩ := hs.element hye
    exact hdis ((hlead hm).2 hf hye₀ (hs.under hu))

/-- A part that was assigned last holds, and so do those after it. -/
theorem keyed_cons (hkeyed : t.Keyed s entry pairs)
    (hhead : (∀ q ∈ pairs, ¬ s.Displaces q.1 g) → t.Takes entry g part) :
    t.Keyed s entry ((g, part) :: pairs) := by
  intro before field part' after heq hafter
  cases before with
  | nil =>
    obtain ⟨hpair, rfl⟩ := List.cons.inj heq
    obtain ⟨rfl, rfl⟩ := Prod.mk.inj hpair
    exact hhead hafter
  | cons q before => exact hkeyed before field part' after (List.cons.inj heq).2 hafter

/-- A key leaf that is not displaced is another one. -/
theorem ne_of_not_displaces (h₀ : t₀.Waits schema node s id entry)
    (hce : t₀.element? entry = some ce) (hg : Assoc.get? g ce.setters = some x)
    (hf : Assoc.get? field ce.setters = some y) (hy : t₀.element? y = some e)
    (hdis : ¬ s.Displaces g field) : y ≠ x := by
  rintro rfl
  exact hdis (.inl ((h₀.of_setter hce hg hy).2.symm.trans (h₀.of_setter hce hf hy).2))

/-- **The key of an entry**: assigning its parts leaves every key leaf with what its type makes
of its part, unless a later part displaces it, and shelters the older entries. -/
theorem ensures_assignKey (h₀ : t₀.Waits schema node s id entry) (hplain : s.PlainKeys)
    (hce : t₀.element? entry = some ce) (hfields : ∀ q ∈ pairs, q.1 ∈ s.key.fields)
    (hs : t₀.Shrinks t) (hsound : Sound t {entry}) (hsh : t₀.Shelters id t) :
    (assignKey entry pairs).Ensures t
      (fun _ t' => Sound t' {entry} ∧ t₀.Shrinks t' ∧ t₀.Shelters id t' ∧ t'.Keyed s entry pairs ∧
        ∀ {f y content}, Assoc.get? f ce.setters = some y → t.held y = some content →
          (∀ q ∈ pairs, ¬ s.Displaces q.1 f) → t'.held y = t.held y)
      fun _ t' => Sound t' {entry} ∧ t₀.Shrinks t' ∧ t₀.Shelters id t' := by
  induction pairs generalizing t with
  | nil =>
    refine ⟨hsound, hs, hsh, fun before field part after heq => ?_, fun _ _ _ => rfl⟩
    cases before <;> cases heq
  | cons pair rest ih =>
    obtain ⟨g, part⟩ := pair
    rw [assignKey, ensures_get_bind]
    refine ⟨fun ce' hce' => ?_, fun _ => ⟨hsound, hs, hsh⟩⟩
    obtain ⟨ce₀, hce₀, hse⟩ := hs.element hce'
    obtain rfl : ce = ce₀ := Option.some.inj (hce.symm.trans hce₀)
    rw [ensures_ofExcept_bind]
    refine ⟨fun x hx => ?_, fun _ _ => ⟨hsound, hs, hsh⟩⟩
    have hg : Assoc.get? g ce.setters = some x := by
      rw [← mem_setters_of_setterFor hx, Element.setters_of_bare hse.bare]
    have htype : ∀ {e type}, t.element? x = some e → leafType e = .ok type →
        type.involvesReference = false :=
      h₀.plain_of_shrinks hplain (hfields _ List.mem_cons_self) hce hg hs
    refine ((put_setLeaf hsound (h₀.follows.shrinks hs).declared (.text part) htype).mono
      (fun _ _ hd => hd) fun _ t₁ hf => ?_).bind fun _ t₁ h₁ => ?_
    · obtain ⟨hooks, hput, hhooks⟩ := hf
      exact ⟨hput.sound, trans_of Shrinks hs hput.shrinks,
        (h₀.spares hce hg hs hsound hsh hput hhooks).1⟩
    · obtain ⟨p, slot, value, hp, hheld, hvalue, hput, hself⟩ := h₁
      obtain ⟨v, rfl, -⟩ := LeafType.isPlain_of_construct rfl hvalue
      obtain ⟨hsh₁, hkeep⟩ := h₀.spares hce hg hs hsound hsh hput fun _ hm => ⟨p, hp, hm⟩
      refine (ih (fun q hq => hfields q (List.mem_cons_of_mem _ hq))
        (trans_of Shrinks hs hput.shrinks)
        hput.sound hsh₁).mono (fun _ t₂ h₂ => ?_) fun _ _ hf => hf
      obtain ⟨hsound₂, hs₂, hsh₂, hkeyed, hrest⟩ := h₂
      refine ⟨hsound₂, hs₂, hsh₂, keyed_cons hkeyed fun hafter => ?_,
        fun {f y content} hf hy hno => ?_⟩
      · obtain ⟨ce₂, -, hce₂, -⟩ := hsound₂.pending rfl
        obtain ⟨ce₀, hce₀, hse₂⟩ := hs₂.element hce₂
        obtain rfl : ce = ce₀ := Option.some.inj (hce.symm.trans hce₀)
        refine ⟨ce₂, x, { slot with value := some v }, v, hce₂, ?_, ?_, rfl, hvalue⟩
        · rw [Element.setters_of_bare hse₂.bare, hg]
        · rw [hrest hg hself hafter, hself]
      · obtain ⟨ye, hye, -⟩ := held_eq_some_iff.1 hy
        obtain ⟨ye₀, hye₀, -⟩ := hs.element hye
        have hdis := hno _ List.mem_cons_self
        have hkept := hkeep hf (h₀.ne_of_not_displaces hce hg hf hye₀ hdis) (by rw [hye]; rfl) hdis
        rw [hrest hf (hkept.trans hy) fun q hq => hno q (List.mem_cons_of_mem _ hq), hkept]

end Waits

end Tree

end DataTree
