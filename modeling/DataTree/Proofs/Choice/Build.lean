import DataTree.Proofs.Choice.Shadow
import DataTree.Proofs.Structure.Build

/-!
# DataTree.Proofs.Choice.Build

A subtree as it is built: without data, arranged, and with no choice shadowed if its
schema shadows none (`laid_build`).
-/

namespace DataTree

open Edit Outcome

namespace Tree

variable {t t' : Tree} {pending : Set ElementId} {id c x : ElementId} {e : Element}
  {spec : ElementSpec} {lo : Nat} {case : Option Case}

/-! ## Trees that agree on some slots -/

/-- The later tree is the same on the slots from `lo` on that the earlier one has. -/
def Agrees (t t' : Tree) (lo : Nat) : Prop :=
  ∀ {x : ElementId}, lo ≤ x.index → x.index < t.slots.size → t'.element? x = t.element? x

theorem Sound.index_of_child (h : Sound t pending) (he : t.element? id = some e) {name : String}
    (hm : (name, c) ∈ e.children) : id.index < c.index ∧ c.index < t.slots.size := by
  have ha : t.Above id c := ⟨e, he, Element.mem_below_of_child hm⟩
  obtain ⟨-, hlt, ce, hce, -⟩ := h.of_above ha
  exact ⟨hlt, index_lt_of_element? hce⟩

/-- The ways up to an element lead through later slots only. -/
theorem Agrees.route (ha : t.Agrees t' lo) (h : Sound t pending) {d : Option Case}
    (hr : t'.Route x c d) (hlo : lo ≤ c.index) (hc : c.index < t.slots.size) :
    t.Route x c d ∧ t'.element? x = t.element? x := by
  induction hr with
  | here he =>
    have hx := ha hlo hc
    exact ⟨.here (by rw [← hx, he]), hx⟩
  | up _ hp hm ih =>
    rw [ha hlo hc] at hp
    obtain ⟨hlt, hsize⟩ := h.index_of_child hp hm
    obtain ⟨hr, hx⟩ := ih (by omega) hsize
    exact ⟨.up hr hp hm, hx⟩

theorem Agrees.arrangedAt (ha : t.Agrees t' lo) (h : Sound t pending) (hat : t.ArrangedAt id)
    (hlo : lo ≤ id.index) (hid : id.index < t.slots.size) : t'.ArrangedAt id := by
  have hel := ha hlo hid
  constructor
  case declared =>
    intro e he
    exact hat.declared (hel ▸ he)
  case hooks =>
    intro e he
    exact hat.hooks (hel ▸ he)
  case member =>
    intro e name c ce k he hm hce hk
    rw [hel] at he
    obtain ⟨hlt, hsize⟩ := h.index_of_child he hm
    rw [ha (by omega) hsize] at hce
    exact hat.member he hm hce hk

theorem Agrees.unshadowedAt (ha : t.Agrees t' lo) (h : Sound t pending) (hat : t.UnshadowedAt id)
    (hlo : lo ≤ id.index) (hid : id.index < t.slots.size) : t'.UnshadowedAt id := by
  have hel := ha hlo hid
  constructor
  case member =>
    intro e k k' m m' c b x xe d he hk hk' hkk hm hm' hr hx hcont
    rw [hel] at he
    obtain ⟨hlt, hsize⟩ := h.index_of_child he hm
    obtain ⟨hr', hx'⟩ := ha.route h hr (by omega) hsize
    exact hat.member he hk hk' hkk hm hm' hr' (hx' ▸ hx) hcont
  case entry =>
    intro e l he
    exact hat.entry (hel ▸ he)

theorem arrangedAt_of_none (h : t.element? id = none) : t.ArrangedAt id := by
  constructor <;> intros <;> simp_all

theorem unshadowedAt_of_none (h : t.element? id = none) : t.UnshadowedAt id := by
  constructor <;> intros <;> simp_all

/-! ## Subtrees -/

/-- A subtree as it is built behind everything else. -/
structure Laid (t : Tree) (schema : Schema) (case : Option Case) (id : ElementId) : Prop where
  case_eq : ∀ {e}, t.element? id = some e → e.case = case
  arranged : ∀ {x}, id.index ≤ x.index → t.ArrangedAt x
  blank : ∀ {x e}, id.index ≤ x.index → t.element? x = some e → e.content.holdsData = false
  unshadowed : schema.Unshadowed → ∀ {x}, id.index ≤ x.index → t.UnshadowedAt x
  near : ∀ {x xe d}, t.Route x id d → t.element? x = some xe → xe.content ≠ .container →
    ∃ near ∈ schema.nears, d = near.orElse fun _ => case

/-- A container that some of its children were built for. -/
structure Furnished (t : Tree) (id : ElementId) (case : Option Case) (all : List (Child Schema)) :
    Prop where
  case_eq : ∀ {e}, t.element? id = some e → e.case = case
  arranged : ∀ {x}, id.index ≤ x.index → t.ArrangedAt x
  blank : ∀ {x e}, id.index ≤ x.index → t.element? x = some e → e.content.holdsData = false
  unshadowed : Schema.AllUnshadowed all → ∀ {x}, id.index < x.index → t.UnshadowedAt x
  tabled : ∀ {e k m}, t.element? id = some e → e.choices.Has k m → m ∈ Assoc.keys e.children
  child : ∀ {e name c}, t.element? id = some e → (name, c) ∈ e.children → ∃ child ∈ all,
    (∀ {ce}, t.element? c = some ce → ce.case = child.case) ∧
      ∀ {x xe d}, t.Route x c d → t.element? x = some xe → xe.content ≠ .container →
        ∃ near ∈ child.node.nears, d = near.orElse fun _ => child.case

theorem Schema.unshadowed_of_mem {children : List (Child Schema)}
    (h : Schema.AllUnshadowed children) {child : Child Schema} (hm : child ∈ children) :
    child.node.Unshadowed := by
  induction children with
  | nil => cases hm
  | cons first rest ih =>
    obtain ⟨name, case, node⟩ := first
    rw [Schema.AllUnshadowed] at h
    obtain rfl | hm := List.mem_cons.1 hm
    · exact h.1
    · exact ih h.2 hm

/-- With all its children a container is laid. -/
theorem Furnished.laid {all : List (Child Schema)} {default : Value} (h : t.Furnished id case all)
    (hs : Sound t pending) (he : t.element? id = some e) (hc : e.content = .container) :
    t.Laid (.container all default) case id := by
  constructor
  case case_eq => exact h.case_eq
  case arranged => exact h.arranged
  case blank => exact h.blank
  case unshadowed =>
    intro hu x hx
    rw [Schema.unshadowed_container] at hu
    by_cases hxi : x = id
    · subst hxi
      constructor
      case member =>
        intro e' k k' m m' c b y ye d he' hk hk' hkk hm hm' hr hy hcont
        have hat := h.arranged (Nat.le_refl x.index)
        obtain ⟨child, hmem, hcase, hnear⟩ := h.child he' hm
        obtain ⟨child', hmem', hcase', -⟩ := h.child he' hm'
        obtain ⟨-, -, ce, hce, -⟩ := hs.child he' hm
        obtain ⟨-, -, be, hbe, -⟩ := hs.child he' hm'
        have hkc : child.case = some k := (hcase hce).symm.trans (hat.member he' hm hce hk)
        have hkc' : child'.case = some k' := (hcase' hbe).symm.trans (hat.member he' hm' hbe hk')
        obtain ⟨near, hn, rfl⟩ := hnear hr hy hcont
        refine ⟨near.getD k, ?_, hu.1 child hmem child' hmem' k k' hkc hkc' hkk near hn⟩
        cases near <;> simp [hkc]
      case entry =>
        intro e' l he' hl
        obtain rfl : e = e' := Option.some.inj (he.symm.trans he')
        rw [hc] at hl
        cases hl
    · refine h.unshadowed hu.2 (Nat.lt_of_le_of_ne hx fun heq => hxi ?_)
      cases x
      cases id
      simp_all
  case near =>
    intro x xe d hr hx hcont
    cases hr with
    | here _ =>
      obtain rfl : e = xe := Option.some.inj (he.symm.trans hx)
      exact absurd hc hcont
    | up hr he' hm =>
      obtain ⟨child, hmem, -, hnear⟩ := h.child he' hm
      obtain ⟨near, hn, rfl⟩ := hnear hr hx hcont
      rw [Schema.nears]
      exact ⟨_, Schema.mem_nearsOf hmem hn, by rw [h.case_eq he']⟩

/-! ## A child more -/

/-- The tree `t` with the container `id` has become `t'`, where the container has got a child with
its hooks, and everything behind it is as it was, or as it was just built in `t₁`. -/
structure Extended (t : Tree) (id : ElementId) (e : Element) (name : String) (case : Option Case)
    (isLeaf : Bool) (child : ElementId) (t₁ t' : Tree) : Prop where
  child_eq : child = ⟨t.slots.size⟩
  self : t'.element? id
    = some (Tree.addField name case isLeaf child
      { e with children := e.children ++ [(name, child)] })
  older : t.Agrees t' (id.index + 1)
  newer : t₁.Agrees t' (id.index + 1)
  size_lt : t.slots.size < t₁.slots.size
  size_eq : t'.slots.size = t₁.slots.size

/-- A child that was just built and has got its hooks. -/
theorem Built.extended {name : String} {registers isContainer : Bool} {child : ElementId}
    {case' : Option Case} (isLeaf : Bool) (he : t.element? id = some e)
    (hc : e.content = .container) (hn : name ∉ Assoc.keys e.children)
    (hb : t.Built { name, parent := some id, registers, case := case' } isContainer
      pending child t') :
    t.Extended id e name case' isLeaf child t'
      (t'.modifyElement id (Tree.addField name case' isLeaf child)) := by
  obtain rfl := hb.id_eq
  have hid := index_lt_of_element? he
  have hnewer : t'.Agrees (t'.modifyElement id
      (Tree.addField name case' isLeaf ⟨t.slots.size⟩)) (id.index + 1) :=
    fun {x} hx _ => element?_modifyElement_of_ne (fun hxi => Nat.lt_irrefl _ (hxi ▸ hx)) _
  exact
    { child_eq := rfl
      self :=
        element?_modifyElement_self ((hb.older hid).trans (element?_link_container rfl he hc hn))
      older := fun {x} hx hlt => by
        have hne : x ≠ id := fun hxi => Nat.lt_irrefl _ (hxi ▸ hx)
        rw [hnewer hx (Nat.lt_trans hlt hb.size_lt), hb.older hlt, element?_link_of_ne rfl hne]
      newer := hnewer
      size_lt := hb.size_lt
      size_eq := size_slots_modifyElement _ _ _ }

namespace Extended

variable {t₁ : Tree} {name : String} {case' : Option Case} {isLeaf : Bool} {child : ElementId}
  {node : Schema} {all : List (Child Schema)} {pending₁ : Set ElementId}
  (hx : t.Extended id e name case' isLeaf child t₁ t')
include hx

/-- What stands from the container on. -/
theorem range (hle : id.index ≤ x.index) : x = id ∨ (id.index < x.index ∧ x.index < t.slots.size) ∨
    (t.slots.size ≤ x.index ∧ x.index < t₁.slots.size) ∨ t'.element? x = none := by
  by_cases hxi : x = id
  · exact .inl hxi
  have hne : id.index ≠ x.index := fun h => hxi (by cases x; cases id; simp_all)
  by_cases hlt : x.index < t₁.slots.size
  · omega
  · exact .inr (.inr (.inr (element?_eq_none_of_size_le (hx.size_eq ▸ Nat.not_lt.1 hlt))))

/-- The container itself is arranged. -/
theorem arrangedAt (h : t.Furnished id case all) (hs : Sound t pending)
    (he : t.element? id = some e) (hn : name ∉ Assoc.keys e.children)
    (hl : t₁.Laid node case' child) : t'.ArrangedAt id := by
  obtain rfl := hx.child_eq
  have hid := index_lt_of_element? he
  have hat := h.arranged (Nat.le_refl id.index)
  constructor
  case declared =>
    intro e' he'
    obtain rfl := Option.some.inj (hx.self.symm.trans he')
    exact (hat.declared he :)
  case hooks =>
    intro e' he'
    obtain rfl := Option.some.inj (hx.self.symm.trans he')
    have hunsetters : e.unsetters = e.children.map fun m => (m.1, .contents m.2) := hat.hooks he
    have hkeys : name ∉ Assoc.keys e.unsetters := by
      rw [hunsetters]
      simpa [Assoc.keys] using hn
    show Assoc.insert name _ e.unsetters = _
    rw [Assoc.insert_eq_append hkeys, hunsetters]
    simp [Tree.addField]
  case member =>
    intro e' m c ce k he' hm hce hk
    obtain rfl := Option.some.inj (hx.self.symm.trans he')
    obtain hm | hm := List.mem_append.1 hm
    · obtain ⟨hlt, hsize⟩ := hs.index_of_child he hm
      obtain hk | ⟨-, hname⟩ := has_of_addField hk
      · exact hat.member he hm (hx.older hlt hsize ▸ hce) hk
      · exact absurd (hname ▸ Assoc.mem_keys_of_mem hm) hn
    · obtain ⟨rfl, rfl⟩ := Prod.mk.inj (List.mem_singleton.1 hm)
      obtain hk | ⟨hk, -⟩ := has_of_addField hk
      · exact absurd (h.tabled he hk) hn
      · rw [hl.case_eq (hx.newer hid hx.size_lt ▸ hce), hk]

/-- Its children were built for what the schema declares. -/
theorem exists_decl (h : t.Furnished id case all) (hs : Sound t pending) (hs₁ : Sound t₁ pending₁)
    (he : t.element? id = some e) (hl : t₁.Laid node case' child) (hm : ⟨name, case', node⟩ ∈ all)
    {e' : Element} {m : String} {c : ElementId} (he' : t'.element? id = some e')
    (hc : (m, c) ∈ e'.children) :
    ∃ decl ∈ all, (∀ {ce}, t'.element? c = some ce → ce.case = decl.case) ∧
      ∀ {x xe d}, t'.Route x c d → t'.element? x = some xe → xe.content ≠ .container →
        ∃ near ∈ decl.node.nears, d = near.orElse fun _ => decl.case := by
  obtain rfl := hx.child_eq
  have hid := index_lt_of_element? he
  obtain rfl := Option.some.inj (hx.self.symm.trans he')
  obtain hc | hc := List.mem_append.1 hc
  · obtain ⟨hlt, hsize⟩ := hs.index_of_child he hc
    obtain ⟨decl, hdecl, hcase, hnear⟩ := h.child he hc
    refine ⟨decl, hdecl, fun hce => hcase (hx.older hlt hsize ▸ hce), fun hr hxe hcont => ?_⟩
    obtain ⟨hr', hxe'⟩ := Agrees.route hx.older hs hr hlt hsize
    exact hnear hr' (hxe' ▸ hxe) hcont
  · obtain ⟨rfl, rfl⟩ := Prod.mk.inj (List.mem_singleton.1 hc)
    refine ⟨_, hm, fun hce => hl.case_eq (hx.newer hid hx.size_lt ▸ hce), fun hr hxe hcont => ?_⟩
    obtain ⟨hr', hxe'⟩ := Agrees.route hx.newer hs₁ hr hid hx.size_lt
    exact hl.near hr' (hxe' ▸ hxe) hcont

end Extended

/-- With a child more the container is still furnished. -/
theorem Furnished.addField {all : List (Child Schema)} {name : String}
    {registers isContainer isLeaf : Bool} {child : ElementId} {node : Schema}
    {case' : Option Case} (h : t.Furnished id case all) (hs : Sound t pending)
    (he : t.element? id = some e) (hc : e.content = .container) (hn : name ∉ Assoc.keys e.children)
    (hb : t.Built { name, parent := some id, registers, case := case' }
      isContainer pending child t')
    (hl : t'.Laid node case' child) (hm : ⟨name, case', node⟩ ∈ all) :
    (t'.modifyElement id (Tree.addField name case' isLeaf child)).Furnished id case all := by
  have hext := hb.extended isLeaf he hc hn
  have hsound := hb.sound
  obtain rfl := hb.id_eq
  have hid := index_lt_of_element? he
  constructor
  case case_eq =>
    intro e' he'
    obtain rfl := Option.some.inj (hext.self.symm.trans he')
    exact (h.case_eq he :)
  case arranged =>
    intro x hx
    obtain rfl | ⟨hlo, hlt⟩ | ⟨hlo, hlt⟩ | hnone := hext.range hx
    · exact hext.arrangedAt h hs he hn hl
    · exact Agrees.arrangedAt hext.older hs (h.arranged hx) hlo hlt
    · exact Agrees.arrangedAt hext.newer hsound (hl.arranged hlo) (by omega) hlt
    · exact arrangedAt_of_none hnone
  case blank =>
    intro x xe hx hxe
    obtain rfl | ⟨hlo, hlt⟩ | ⟨hlo, hlt⟩ | hnone := hext.range hx
    · obtain rfl := Option.some.inj (hext.self.symm.trans hxe)
      exact (h.blank hx he :)
    · exact h.blank hx (hext.older hlo hlt ▸ hxe)
    · exact hl.blank hlo (hext.newer (by omega) hlt ▸ hxe)
    · rw [hnone] at hxe
      cases hxe
  case unshadowed =>
    intro hu x hx
    obtain rfl | ⟨hlo, hlt⟩ | ⟨hlo, hlt⟩ | hnone := hext.range (Nat.le_of_lt hx)
    · exact absurd hx (Nat.lt_irrefl _)
    · exact Agrees.unshadowedAt hext.older hs (h.unshadowed hu hx) hlo hlt
    · refine Agrees.unshadowedAt hext.newer hsound (hl.unshadowed ?_ hlo) (by omega) hlt
      exact Schema.unshadowed_of_mem hu hm
    · exact unshadowedAt_of_none hnone
  case tabled =>
    intro e' k m he' hk
    obtain rfl := Option.some.inj (hext.self.symm.trans he')
    show m ∈ Assoc.keys (e.children ++ [(name, _)])
    rw [Assoc.keys, List.map_append, List.mem_append]
    obtain hk | ⟨-, rfl⟩ := has_of_addField hk
    · exact .inl (h.tabled he hk)
    · exact .inr (List.mem_singleton_self m)
  case child => exact fun he' hm' => hext.exists_decl h hs hsound he hl hm he' hm'

/-! ## Building -/

@[simp] theorem case_withDefault (spec : ElementSpec) (default : Value) :
    (withDefault spec default).case = spec.case := by
  unfold withDefault; split <;> rfl

/-- An element that was just made stands alone behind everything else. -/
theorem eq_newElement {content : Content} {xe : Element}
    (h : ((t.link spec).place (t.newElement content spec)).element? x = some xe)
    (hx : t.slots.size ≤ x.index) : x = ⟨t.slots.size⟩ ∧ t.newElement content spec = xe := by
  obtain ⟨hxi, he⟩ | hold := place_cases h
  · exact ⟨by rw [hxi, size_slots_link], he⟩
  · have hlt := index_lt_of_element? hold
    rw [size_slots_link] at hlt
    omega

theorem arrangedAt_newElement {content : Content} (hd : content.IsDeclared)
    (hx : t.slots.size ≤ x.index) :
    ((t.link spec).place (t.newElement content spec)).ArrangedAt x := by
  constructor
  case declared =>
    intro e he
    obtain ⟨-, rfl⟩ := eq_newElement he hx
    exact hd
  case hooks =>
    intro e he
    obtain ⟨-, rfl⟩ := eq_newElement he hx
    rfl
  case member =>
    intro e name c ce k he hm
    obtain ⟨-, rfl⟩ := eq_newElement he hx
    cases hm

/-- A single element without children is laid as soon as it is made. -/
theorem laid_wrap {content : Content} {schema : Schema} (h : t.HasParent spec)
    (hcase : spec.case = case) (hd : content.IsDeclared) (hdata : content.holdsData = false)
    (hnear : schema.nears = [none])
    (hlist : ∀ l, content = .list l → schema.Unshadowed →
      Schema.UnshadowedChildren l.schema.entry) :
    (wrap content spec).Ensures t (fun id t' => t'.Laid schema case id) fun _ _ => True := by
  rw [ensures_of_ok (on_wrap content h)]
  constructor
  case case_eq =>
    intro e he
    obtain ⟨-, rfl⟩ := eq_newElement he (Nat.le_refl _)
    exact hcase
  case arranged => exact fun hx => arrangedAt_newElement hd hx
  case blank =>
    intro x e hx he
    obtain ⟨-, rfl⟩ := eq_newElement he hx
    exact hdata
  case unshadowed =>
    intro hu x hx
    constructor
    case member =>
      intro e k k' m m' c b y ye d he _ _ _ hm
      obtain ⟨-, rfl⟩ := eq_newElement he hx
      cases hm
    case entry =>
      intro e l he hl
      obtain ⟨-, rfl⟩ := eq_newElement he hx
      exact hlist l hl hu
  case near =>
    intro x xe d hr _ _
    cases hr with
    | here he =>
      obtain ⟨-, rfl⟩ := eq_newElement he (Nat.le_refl _)
      exact ⟨none, by rw [hnear]; exact List.mem_singleton_self none, hcase⟩
    | up _ he hm =>
      obtain ⟨-, rfl⟩ := eq_newElement he (Nat.le_refl _)
      cases hm

/-- A container that was just made has none of its children yet. -/
theorem furnished_wrap (all : List (Child Schema)) (h : t.HasParent spec) :
    (wrap .container spec).Ensures t (fun id t' => t'.Furnished id spec.case all)
      fun _ _ => True := by
  rw [ensures_of_ok (on_wrap .container h)]
  constructor
  case case_eq =>
    intro e he
    obtain ⟨-, rfl⟩ := eq_newElement he (Nat.le_refl _)
    rfl
  case arranged => exact fun hx => arrangedAt_newElement trivial hx
  case blank =>
    intro x e hx he
    obtain ⟨-, rfl⟩ := eq_newElement he hx
    rfl
  case unshadowed =>
    intro _ x hx
    refine unshadowedAt_of_none (Option.eq_none_iff_forall_ne_some.2 fun e he => ?_)
    obtain ⟨rfl, -⟩ := eq_newElement he (Nat.le_of_lt hx)
    exact Nat.lt_irrefl _ hx
  case tabled =>
    intro e k m he hk
    obtain ⟨-, rfl⟩ := eq_newElement he (Nat.le_refl _)
    exact absurd hk (ChoiceTable.not_has_empty k m)
  case child =>
    intro e name c he hm
    obtain ⟨-, rfl⟩ := eq_newElement he (Nat.le_refl _)
    cases hm

mutual

/-- **Laying a subtree**: what is built from a schema is arranged and without data, and
shadows no choice if the schema shadows none. -/
theorem laid_build : ∀ (schema : Schema), schema.Distinct →
    ∀ {t : Tree} {pending : Set ElementId} {spec : ElementSpec}, Sound t pending → t.Fits spec →
      (build schema spec).Ensures t (fun id t' => t'.Laid schema spec.case id) fun _ _ => True
  | .leaf type default, _, t, pending, spec, h, hfit => by
    rw [build, ensures_ofExcept_bind]
    refine ⟨fun _ _ => ?_, fun _ _ => trivial⟩
    refine laid_wrap (hfit.congr (by simp) (by simp) (by simp)).hasParent (by simp) trivial rfl
      (by rw [Schema.nears]) fun l hl => by cases hl
  | .leafList type default, _, t, pending, spec, h, hfit => by
    rw [build]
    refine laid_wrap (hfit.congr (by simp) (by simp) (by simp)).hasParent (by simp) trivial rfl
      (by rw [Schema.nears]) fun l hl => by cases hl
  | .container children default, hd, t, pending, spec, h, hfit => by
    rw [Schema.distinct_container] at hd
    rw [build]
    have hfit' : t.Fits { withDefault spec default with isContainer := true } :=
      hfit.congr (by simp) (by simp) (by simp)
    have hwrap :=
      (ensures_wrap .container h hfit' (.of_isInitial trivial fun hl => by cases hl)).and
      (furnished_wrap children hfit'.hasParent)
    refine (hwrap.mono (fun _ _ hb => hb) fun _ _ _ => trivial).bind fun id t₁ hb => ?_
    obtain ⟨⟨hb, he⟩, hf⟩ := hb
    obtain ⟨e, hc, hchildren, he⟩ : ∃ e : Element, e.content = .container ∧ e.children = [] ∧
        t₁.element? id = some e := ⟨_, rfl, rfl, he⟩
    have hf : t₁.Furnished id spec.case children := by simpa using hf
    have hnew : ∀ c ∈ children, c.name ∉ Assoc.keys e.children := by simp [hchildren, Assoc.keys]
    have hpopulated :=
      ensures_populate spec.registers children hd.2 hd.1 hb.sound he hc hnew hb.rooted
    have hfurnished :=
      furnished_populate spec.registers children hd.2 hd.1 (fun _ hm => hm) hb.sound
      he hc hnew hb.rooted hf
    have hstep : (orRemove id (populate id spec.registers children)).Ensures t₁
        (fun _ t₂ => t₂.Laid (.container children default) spec.case id) fun _ _ => True := by
      rw [orRemove, ensures_tryCatch]
      refine (hpopulated.and hfurnished).mono (fun _ t₂ hp => ?_) fun _ t₂ _ => ?_
      · obtain ⟨e₂, he₂, -, -, -, hc₂⟩ := hp.1.element
        exact hp.2.laid hp.1.sound he₂ (hc₂.trans hc)
      · exact (ensures_true (removeSubtree id) t₂).bind fun _ _ _ => trivial
    exact hstep.bind fun _ _ hlaid => hlaid
  | .list ⟨key, entry, ordered⟩ default, hd, t, pending, spec, h, hfit => by
    rw [Schema.distinct_list] at hd
    rw [build]
    refine laid_wrap (hfit.congr (by simp) (by simp) (by simp)).hasParent (by simp) trivial rfl
      (by rw [Schema.nears]) fun l hl hu => ?_
    obtain rfl := Content.list.inj hl
    exact Schema.unshadowed_list.1 hu

theorem furnished_populate (registers : Bool) : ∀ (children : List (Child Schema)),
    Schema.AllDistinct children → (children.map Child.name).Nodup →
    ∀ {t : Tree} {pending : Set ElementId} {id : ElementId} {e : Element} {case : Option Case}
      {all : List (Child Schema)}, children ⊆ all → Sound t pending → t.element? id = some e →
      e.content = .container → (∀ c ∈ children, c.name ∉ Assoc.keys e.children) → t.Rooted id →
      t.Furnished id case all →
      (populate id registers children).Ensures t (fun _ t' => t'.Furnished id case all)
        fun _ _ => True
  | [], _, _, t, pending, id, e, case, all, _, h, he, _, _, hr, hf => by
    rw [populate]
    exact hf
  | ⟨name, case', node⟩ :: rest, hd, hn, t, pending, id, e, case, all, hsub, h, he, hc, hnew,
      hr, hf => by
    rw [Schema.AllDistinct] at hd
    rw [List.map_cons, List.nodup_cons] at hn
    have hname := hnew ⟨name, case', node⟩ List.mem_cons_self
    rw [populate]
    have hfit := fits_child registers case' he hname
    refine Ensures.bind (((ensures_build node hd.1 h hfit).and (laid_build node hd.1 h hfit)).mono
      (fun _ _ hb => hb) fun _ _ _ => trivial) fun child t₁ hb => ?_
    obtain ⟨hb, hl⟩ := hb
    obtain ⟨e₂, he₂, hkeys, hp⟩ := hb.addField case' node.isLeaf he hc hname hr
    have hf₂ : (t₁.modifyElement id
        (addField name case' node.isLeaf child)).Furnished id case all :=
      hf.addField h he hc hname hb hl (hsub List.mem_cons_self)
    rw [ensures_bind, ensures_update]
    refine ⟨fun _ _ => ?_, fun _ => trivial⟩
    obtain ⟨e', he', -, -, -, hc₂⟩ := hp.element
    obtain rfl : e₂ = e' := Option.some.inj (he₂.symm.trans he')
    exact furnished_populate registers rest hd.2 hn.2 (fun c hm => hsub (List.mem_cons_of_mem _ hm))
      hp.sound he₂ (hc₂.trans hc) (fresh_rest hn.1 hnew hkeys) hp.rooted hf₂

end

end Tree

end DataTree
