import DataTree.Proofs.Choice.Session
import DataTree.Proofs.Choice.Spare

/-!
# DataTree.Proofs.Choice.Apart

What yields to an element that is filled.

An element that is filled displaces its rivals: the members of the other cases of the
choices that it, or something it is under, belongs to.  These have to *yield*
(`Yields`).  But the plan of the change carries a single case up to the root and looks
for the siblings of that case in every container on the way.  If a container there
declares another choice of the same name, the plan takes its members for siblings, be it
the very member that the element is under.  What is taken so, though it has not to yield,
*strays* (`Strays`).

Nothing strays if every choice has a name of its own along each way up (`Schema.Apart`).
In any tree the data that strays is exactly what is lost wrongly (`obeys_of_evolves`).
-/

namespace DataTree

open Edit Outcome

/-! ## Schemas -/

namespace Schema

mutual

/-- The names of the choices that are declared within a node. -/
def choices : Schema → List String
  | .leaf _ _ | .leafList _ _ => []
  | .container children _ => choicesOf children
  | .list ⟨_, entry, _⟩ _ => choicesOf entry

/-- The same for several children, with the choices that these belong to. -/
def choicesOf : List (Child Schema) → List String
  | [] => []
  | ⟨_, case, node⟩ :: rest => (case.map Case.choice).toList ++ choices node ++ choicesOf rest

end

/-- No choice that one of the children belongs to is declared again within a child. -/
def MembersApart (children : List (Child Schema)) : Prop :=
  ∀ c ∈ children, ∀ k, c.case = some k → ∀ c' ∈ children, k.choice ∉ c'.node.choices

mutual

/-- No choice has the name of another one that is declared further up. -/
def Apart : Schema → Prop
  | .leaf _ _ | .leafList _ _ => True
  | .container children _ => MembersApart children ∧ AllApart children
  | .list ⟨_, entry, _⟩ _ => MembersApart entry ∧ AllApart entry

/-- The same for the nodes of several children. -/
def AllApart : List (Child Schema) → Prop
  | [] => True
  | ⟨_, _, node⟩ :: rest => Apart node ∧ AllApart rest

end

/-- An entry has the choices of its list. -/
theorem choices_ofEntry (entries : ListSchema Schema) (default : Value) :
    (ofEntry entries).choices = (Schema.list entries default).choices := by
  obtain ⟨key, entry, ordered⟩ := entries
  rw [ofEntry, choices, choices]

/-- Where choices are apart in a list they are so in its entries. -/
theorem apart_ofEntry {entries : ListSchema Schema} {default : Value}
    (h : (Schema.list entries default).Apart) : (ofEntry entries).Apart := by
  obtain ⟨key, entry, ordered⟩ := entries
  rw [Apart] at h
  rw [ofEntry, Apart]
  exact h

/-- The choices of a container are those of its children and of what is below them. -/
theorem mem_choicesOf {children : List (Child Schema)} {child : Child Schema}
    (h : child ∈ children) :
    (∀ {k}, child.case = some k → k.choice ∈ choicesOf children) ∧
      child.node.choices ⊆ choicesOf children := by
  induction children with
  | nil => cases h
  | cons first rest ih =>
    obtain ⟨name, case, node⟩ := first
    rw [choicesOf]
    obtain rfl | h := List.mem_cons.1 h
    · refine ⟨fun {k} hk => ?_, fun s hs => ?_⟩
      · obtain rfl : case = some k := hk
        simp
      · exact List.mem_append_left _ (List.mem_append_right _ hs)
    · obtain ⟨hcase, hnode⟩ := ih h
      exact ⟨fun hk => List.mem_append_right _ (hcase hk),
        fun s hs => List.mem_append_right _ (hnode hs)⟩

/-- What is declared within a child is declared within the node. -/
theorem mem_choices {n : Schema} {child : Child Schema} (h : child ∈ n.children) :
    (∀ {k}, child.case = some k → k.choice ∈ n.choices) ∧ child.node.choices ⊆ n.choices := by
  cases n with
  | container children default =>
    rw [choices]
    exact mem_choicesOf h
  | _ => cases h

/-- Where choices are apart they are so in every child. -/
theorem apart_of_mem {children : List (Child Schema)} (h : AllApart children) {child : Child Schema}
    (hm : child ∈ children) : child.node.Apart := by
  induction children with
  | nil => cases hm
  | cons first rest ih =>
    obtain ⟨name, case, node⟩ := first
    rw [AllApart] at h
    obtain rfl | hm := List.mem_cons.1 hm
    · exact h.1
    · exact ih h.2 hm

theorem Apart.child {n : Schema} (h : n.Apart) {child : Child Schema} (hm : child ∈ n.children) :
    child.node.Apart := by
  cases n with
  | container children default =>
    rw [Apart] at h
    exact apart_of_mem h.2 hm
  | _ => cases hm

theorem Apart.members {n : Schema} (h : n.Apart) : MembersApart n.children := by
  cases n with
  | container children default =>
    rw [Apart] at h
    exact h.1
  | _ =>
    intro c hc
    cases hc

theorem Distinct.child {n : Schema} (h : n.Distinct) {child : Child Schema}
    (hm : child ∈ n.children) : child.node.Distinct := by
  cases n with
  | container children default => exact allDistinct_iff.1 (distinct_container.1 h).2 child hm
  | _ => cases hm

theorem distinct_ofEntry {entries : ListSchema Schema} {default : Value}
    (h : (Schema.list entries default).Distinct) : (ofEntry entries).Distinct :=
  distinct_container.2 (distinct_list.1 h)

/-- A name is declared once. -/
theorem Distinct.eq_of_name {n : Schema} (h : n.Distinct) {child child' : Child Schema}
    (hm : child ∈ n.children) (hm' : child' ∈ n.children) (hname : child.name = child'.name) :
    child = child' := by
  cases n with
  | container children default =>
    exact List.inj_on_of_nodup_map (distinct_container.1 h).1 hm hm' hname
  | _ => cases hm

end Schema

namespace Tree

variable {t t' : Tree} {id b c d q x y : ElementId} {e : Element} {schema : Blueprint}
  {node : ElementId → Schema} {spec : ElementSpec} {p : Plan} {fuel : Nat} {active : Option Case}

/-- The names are distinct in the node of every element. -/
theorem Follows.distinct (h : t.Follows schema node) (hs : Sound t ∅)
    (he : t.element? id = some e) : (node id).Distinct :=
  h.inherits hs schema.distinct (fun _ hn _ hm => hn.child hm)
    (fun _ _ hn => Schema.distinct_ofEntry hn) he

/-- The choices are apart in the node of every element. -/
theorem Follows.apart (h : t.Follows schema node) (hs : Sound t ∅) (ha : schema.root.Apart)
    (he : t.element? id = some e) : (node id).Apart :=
  h.inherits hs ha (fun _ hn _ hm => hn.child hm) (fun _ _ hn => Schema.apart_ofEntry hn) he

/-- What belongs to a case is a child, and the case is the one that was declared for it. -/
theorem Follows.exists_child (h : t.Follows schema node) (hs : Sound t ∅) {ce : Element} {k : Case}
    (hc : t.element? c = some ce) (hcase : ce.case = some k) (hpar : ce.parent = some q) :
    ∃ qe, t.element? q = some qe ∧ (ce.name, c) ∈ qe.children ∧
      ⟨ce.name, some k, node c⟩ ∈ (node q).children := by
  obtain ⟨qe, hqe, hbelow⟩ := hs.listed hc hpar (Set.notMem_empty c)
  obtain ⟨name, hm⟩ | ⟨l, key, hl, hm⟩ := Element.mem_below hbelow
  · obtain ⟨-, -, ce', hce', -, hname, -⟩ := hs.child hqe hm
    obtain rfl : ce = ce' := Option.some.inj (hc.symm.trans hce')
    obtain ⟨-, case, hdecl, hcase'⟩ := h.child hqe hm
    rw [← hcase' hc, hcase] at hdecl
    exact ⟨qe, hqe, hname ▸ hm, hname ▸ hdecl⟩
  · obtain ⟨-, -, hnone⟩ := h.entry hqe hl hm
    rw [hnone hc] at hcase
    cases hcase

/-- A member of a case belongs to it. -/
theorem Follows.case_of_has (h : t.Follows schema node) (hs : Sound t ∅)
    {ce : Element} {k : Case} {m : String} (he : t.element? id = some e) (hk : e.choices.Has k m)
    (hm : (m, c) ∈ e.children) (hc : t.element? c = some ce) : ce.case = some k := by
  obtain ⟨-, case, hdecl, hcase⟩ := h.child he hm
  obtain ⟨n, hmember⟩ := h.member he hk
  have heq := (h.distinct hs he).eq_of_name hdecl hmember rfl
  rw [hcase hc]
  exact (Child.mk.inj heq).2.1

/-! ## What a plan takes -/

/-- Every hook of a plan is that of a rival of a case: the one the plan starts with, or one
that something on the way up belongs to. -/
theorem exists_rival_of_planFrom {pending : Set ElementId} (hs : Sound t pending) {hook : Unset}
    (hx : ∀ y ∈ pending, x.index < y.index) (hp : t.planFrom fuel x active = .ok p)
    (hm : hook ∈ p.unsets) :
    ∃ q qe k k' m, t.Under q x ∧ t.element? q = some qe ∧ qe.choices.Has k' m ∧ k.Rivals k' ∧
      Assoc.get? m qe.unsetters = some hook ∧ (active = some k ∨
        ∃ c ce d, t.Under c x ∧ t.element? c = some ce ∧ ce.case = some k ∧ ce.parent = some d ∧
          t.Under q d) := by
  induction fuel generalizing x active p with
  | zero => cases hp
  | succ fuel ih =>
    obtain ⟨e, hooks, he, hh, hrest⟩ := planFrom_succ_eq_ok.1 hp
    have hown : hook ∈ hooks → _ := fun hm => exists_rival_of_siblingHooks hh hm
    obtain ⟨-, rfl⟩ | ⟨parent, above, hpar, ha, rfl⟩ := hrest
    · obtain ⟨k, k', m, hk, hhas, hkk, hget⟩ := hown hm
      exact ⟨x, e, k, k', m, .refl, he, hhas, hkk, hget, .inl hk⟩
    · obtain hm | hm := List.mem_append.1 hm
      · obtain ⟨k, k', m, hk, hhas, hkk, hget⟩ := hown hm
        exact ⟨x, e, k, k', m, .refl, he, hhas, hkk, hget, .inl hk⟩
      · have hlt := hs.parent_lt he hpar
        have habove := hs.listed he hpar fun hmem => Nat.lt_irrefl _ (hx x hmem)
        obtain ⟨q, qe, k, k', m, hq, hqe, hhas, hkk, hget, hfrom⟩ :=
          ih (fun y hy => Nat.lt_trans hlt (hx y hy)) ha hm
        refine ⟨q, qe, k, k', m, hq.tail habove, hqe, hhas, hkk, hget, ?_⟩
        obtain hk | ⟨c, ce, d, hc, hrest⟩ := hfrom
        · cases active with
          | some near => exact .inl hk
          | none => exact .inr ⟨x, e, parent, .refl, he, hk, hpar, hq⟩
        · exact .inr ⟨c, ce, d, hc.tail habove, hrest⟩

/-- Further up no choice has the name of the one that an element belongs to. -/
theorem Follows.choice_ne (h : t.Follows schema node) (hs : Sound t ∅) (ha : schema.root.Apart)
    {qe ce : Element} {k k' : Case} {m : String} (hq : t.element? q = some qe)
    (hk' : qe.choices.Has k' m) (hu : t.Under q d) (hne : q ≠ d) (hc : t.element? c = some ce)
    (hcase : ce.case = some k) (hpar : ce.parent = some d) : k.choice ≠ k'.choice := by
  have hbelow : ∀ {a b}, t.Above a b → (node b).choices ⊆ (node a).choices := by
    intro a b hab
    obtain ⟨ae, hae, hb⟩ := hab
    obtain ⟨name, hm⟩ | ⟨l, key, hl, hm⟩ := Element.mem_below hb
    · obtain ⟨-, case, hdecl, -⟩ := h.child hae hm
      exact (Schema.mem_choices hdecl).2
    · obtain ⟨-, hnode, -⟩ := h.entry hae hl hm
      obtain ⟨default, hlist⟩ := h.schema_eq hae hl
      rw [hnode, hlist, Schema.choices_ofEntry _ default]
      exact List.Subset.refl _
  have hunder : ∀ {a b}, t.Under a b → (node b).choices ⊆ (node a).choices := by
    intro a b hab
    induction hab with
    | refl => exact List.Subset.refl _
    | tail _ hbc ih => exact List.Subset.trans (hbelow hbc) ih
  obtain ⟨n, hmember⟩ := h.member hq hk'
  obtain heq | ⟨q₁, hqq₁, hu₁⟩ := Relation.ReflTransGen.cases_head_iff.1 hu
  · exact absurd heq hne
  obtain ⟨qe', hq', hm⟩ := hqq₁
  obtain rfl : qe = qe' := Option.some.inj (hq.symm.trans hq')
  obtain ⟨name, hm⟩ | ⟨l, key, hl, -⟩ := Element.mem_below hm
  · obtain ⟨-, case, hdecl, -⟩ := h.child hq hm
    have hnot := (h.apart hs ha hq).members _ hmember k' rfl _ hdecl
    obtain ⟨-, -, -, hdecl'⟩ := h.exists_child hs hc hcase hpar
    intro heq
    exact hnot (heq ▸ hunder hu₁ ((Schema.mem_choices hdecl').1 rfl))
  · obtain ⟨default, hlist⟩ := h.schema_eq hq hl
    rw [hlist] at hmember
    cases hmember

/-! ## What has to yield -/

/-- `b` has to yield when `x` is filled: it is a member of another case of a choice that `x`,
or something it is under, belongs to. -/
def Yields (t : Tree) (x b : ElementId) : Prop :=
  ∃ q qe c ce k k' m, t.element? q = some qe ∧ t.element? c = some ce ∧ ce.parent = some q ∧
    ce.case = some k ∧ t.Under c x ∧ qe.choices.Has k' m ∧ k.Rivals k' ∧ (m, b) ∈ qe.children

/-- Nothing that `y` is under has to yield to `x`. -/
def Spared (t : Tree) (x y : ElementId) : Prop := ∀ b, t.Yields x b → ¬ t.Under b y

/-- The plan of `x` takes something that `y` is under, though nothing there has to yield. -/
def Strays (t : Tree) (x y : ElementId) : Prop :=
  ∃ p, t.plan x none = .ok p ∧ ¬ t.Free p.unsets y ∧ t.Spared x y

/-- Everything but `x`, and what has to yield to it, holds what it held before. -/
def Keeps (t : Tree) (x : ElementId) (t' : Tree) : Prop :=
  ∀ y, y ≠ x → t.Spared x y → t'.held y = t.held y

/-- An element has not to yield to itself. -/
theorem Follows.spared_self (h : t.Follows schema node) (hs : Sound t ∅)
    (x : ElementId) : t.Spared x x := by
  intro b hy hb
  obtain ⟨q, qe, c, ce, k, k', m, hq, hc, hpar, hcase, hcx, hk', hkk, hm⟩ := hy
  obtain ⟨-, -, be, hbe, hbpar, -⟩ := hs.child hq hm
  have hbcase := h.case_of_has hs hq hk' hm hbe
  have hne : b ≠ c := by
    rintro rfl
    obtain rfl : be = ce := Option.some.inj (hbe.symm.trans hc)
    rw [hcase] at hbcase
    exact hkk.2 (congrArg Case.case (Option.some.inj hbcase))
  -- Of two children of one container none is under the other.
  have hnot : ∀ {a a' : ElementId} {ae ae' : Element},
      t.element? a = some ae → t.element? a' = some ae' →
      ae.parent = some q → ae'.parent = some q → a ≠ a' → ¬ t.Under a a' := by
    intro a a' ae ae' ha ha' hpa hpa' hne hu
    obtain ⟨e', q', he', hq', hu', -⟩ := hs.parent_of_under hu (Ne.symm hne)
    obtain rfl : ae' = e' := Option.some.inj (ha'.symm.trans he')
    obtain rfl : q = q' := Option.some.inj (hpa'.symm.trans hq')
    have hle := hs.index_le_of_under hu'
    have hlt := hs.parent_lt ha hpa
    omega
  obtain hu | hu := hs.under_or_under hb hcx
  · exact hnot hbe hc hbpar hpar hne hu
  · exact hnot hc hbe hpar hbpar (Ne.symm hne) hu

/-- Where all choices are apart, a plan takes only what has to yield. -/
theorem Follows.yields_of_mem (h : t.Follows schema node) (hs : Sound t ∅) (ha : schema.root.Apart)
    (hp : t.plan x none = .ok p) (hm : .contents b ∈ p.unsets) {be : Element}
    (hb : t.element? b = some be) : t.Yields x b := by
  obtain ⟨q, qe, k, k', m, -, hqe, hhas, hkk, hget, hfrom⟩ :=
    exists_rival_of_planFrom hs (fun _ hy => hy.elim) hp hm
  obtain hnone | ⟨c, ce, d, hcx, hce, hcase, hpar, hqd⟩ := hfrom
  · cases hnone
  obtain rfl : q = d := by
    by_contra hne
    exact h.choice_ne hs ha hqe hhas hqd hne hce hcase hpar hkk.1
  obtain ⟨b', hhook, hfield⟩ := hs.unsetter hqe (Assoc.mem_of_get?_eq_some hget)
  obtain rfl := Unset.contents.inj hhook
  obtain ⟨hbpar, hname⟩ := hfield.2 be hb
  obtain ⟨qe', hqe', hbelow⟩ := hs.listed hb hbpar (Set.notMem_empty b)
  obtain rfl : qe = qe' := Option.some.inj (hqe.symm.trans hqe')
  obtain ⟨n, hmember⟩ := h.member hqe hhas
  obtain ⟨name, hmem⟩ | ⟨l, key, hl, -⟩ := Element.mem_below hbelow
  · obtain ⟨-, -, be', hbe', -, hname', -⟩ := hs.child hqe hmem
    obtain rfl : be = be' := Option.some.inj (hb.symm.trans hbe')
    obtain rfl : m = name := hname.symm.trans hname'
    exact ⟨q, qe, c, ce, k, k', m, hqe, hce, hpar, hcase, hcx, hhas, hkk, hmem⟩
  · obtain ⟨default, hlist⟩ := h.schema_eq hqe hl
    rw [hlist] at hmember
    cases hmember

/-- So nothing strays. -/
theorem Follows.not_strays (h : t.Follows schema node) (hs : Sound t ∅) (ha : schema.root.Apart)
    (hy : t.element? y = some e) : ¬ t.Strays x y := by
  intro hstray
  obtain ⟨p, hp, htaken, hspared⟩ := hstray
  refine htaken fun b hm hu => ?_
  obtain ⟨be, hbe⟩ : ∃ be, t.element? b = some be := by
    obtain rfl | ⟨c, ⟨be, hbe, -⟩, -⟩ := Relation.ReflTransGen.cases_head_iff.1 hu
    · exact ⟨e, hy⟩
    · exact ⟨be, hbe⟩
  exact hspared b (h.yields_of_mem hs ha hp hm hbe) hu

/-! ## What filling keeps -/

/-- Filling an element keeps what it should exactly if no data strays. -/
theorem Put.keeps_iff (hd : t.Declared) (hp : t.plan x none = .ok p)
    (hput : Put x p.unsets ∅ t t') :
    t.Keeps x t' ↔ ∀ y, y ≠ x → t.Laden y → ¬ t.Strays x y := by
  constructor
  · intro hkeeps y hyx hl hstray
    obtain ⟨p', hp', htaken, hspared⟩ := hstray
    obtain rfl : p = p' := Except.ok.inj (hp.symm.trans hp')
    exact htaken ((hput.laden_iff hyx).1 ((laden_of_held (hkeeps y hyx hspared)).2 hl)).2
  · intro hno y hyx hspared
    by_cases hfree : t.Free p.unsets y
    · exact hput.stays hyx hfree
    cases hy : t.element? y with
    | none => rw [held, held, hput.shrinks.element?_eq_none hy, hy]
    | some e =>
      have hl : ¬ t.Laden y := fun hl => hno y hyx hl ⟨p, hp, hfree, hspared⟩
      cases hy' : t'.element? y with
      | none =>
        obtain ⟨k, hkx, hkfree, hkl, hku⟩ := hput.gone (by rw [hy]; rfl) hy'
        have hkspared : t.Spared x k := fun b hb hu => hspared b hb (hu.trans hku)
        exact absurd ⟨p, hp, hkfree, hkspared⟩ (hno k hkx hkl)
      | some e' =>
        obtain ⟨e₀, he₀, hse⟩ := hput.shrinks.element hy'
        obtain rfl : e = e₀ := Option.some.inj (hy.symm.trans he₀)
        have hl' : ¬ t'.Laden y := fun hl' => hl ((hput.laden_iff hyx).1 hl').1
        have hdata : e.content.holdsData = false := by
          rw [← Bool.not_eq_true]
          exact fun hdata => hl ⟨e, hy, hdata⟩
        have hdata' : e'.content.holdsData = false := by
          rw [← Bool.not_eq_true]
          exact fun hdata => hl' ⟨e', hy', hdata⟩
        have hbare := Element.content_of_bare hse.bare
        rw [Content.bare_eq_self (hd hy) hdata,
          Content.bare_eq_self ((hd.shrinks hput.shrinks) hy') hdata'] at hbare
        rw [held, held, hy, hy', Option.map_some, Option.map_some, hbare]

/-- What has become of a tree whose element `x` was filled with a content. -/
structure Obeys (schema : Schema) (t : Tree) (x : ElementId) (content : Content)
    (t' : Tree) : Prop where
  /-- Where all choices are apart, `x` holds the content, and nothing else has changed but what
  has to yield to it. -/
  apart : schema.Apart → t'.held x = some content ∧ t.Keeps x t'
  /-- Whatever the schema is, `x` holds the content unless it strays itself, -/
  self : ¬ t.Strays x x → t'.held x = some content
  /-- and nothing else is lost exactly if no data strays. -/
  keeps_iff : t.Keeps x t' ↔ ∀ y, y ≠ x → t.Laden y → ¬ t.Strays x y

/-- Putting data into an element unsets its rivals and nothing else. -/
theorem Put.obeys {content : Content} (h : t.Follows schema node) (hs : Sound t ∅)
    (hp : t.plan x none = .ok p) (hx : t.element? x = some e) (hput : Put x p.unsets ∅ t t')
    (hself : t.Free p.unsets x → t'.held x = some content) : Obeys schema t x content t' := by
  have hiff := hput.keeps_iff h.declared hp
  have hfree : ¬ t.Strays x x → t.Free p.unsets x := by
    intro hno
    by_contra htaken
    exact hno ⟨p, hp, htaken, h.spared_self hs x⟩
  refine ⟨fun ha => ⟨hself (hfree (h.not_strays hs ha hx)), hiff.2 fun y _ hl => ?_⟩,
    fun hno => hself (hfree hno), hiff⟩
  obtain ⟨ye, hye, -⟩ := hl
  exact h.not_strays hs ha hye

/-- **What filling changes**: whoever assigns to a leaf or adds items to a leaf-list finds
there what was assigned, and everything else as it was but for what has to yield, if no
choice has the name of another one further up; else exactly as far as nothing strays. -/
theorem obeys_of_evolves (hroot : spec.parent = none) (h : Evolves schema spec t) (x : ElementId) :
    (∀ {raw e type t'}, t.element? x = some e → leafType e = .ok type →
      type.involvesReference = false →
      (setLeaf x raw).on t = (.ok (), t') → ∃ slot value, t.held x = some (.leaf slot) ∧
        slot.type.construct raw = .ok value ∧ Obeys schema t x (.leaf { slot with value }) t') ∧
    (∀ {raw item t'}, (append x raw).on t = (.ok item, t') → ∃ l, t.held x = some (.leafList l) ∧
      Obeys schema t x (.leafList { l with items := l.items ++ [item] }) t') ∧
    (∀ {index raw item t'}, (insert x index raw).on t = (.ok item, t') →
      ∃ l, t.held x = some (.leafList l) ∧
        Obeys schema t x
          (.leafList { l with items := l.items.take index ++ item :: l.items.drop index }) t') ∧
    ∀ {raws items t'}, (extend x raws).on t = (.ok items, t') → ∃ l, t.held x = some (.leafList l) ∧
      Obeys schema t x (.leafList { l with items := l.items ++ items }) t' := by
  obtain ⟨hs, node, hf⟩ := schematic_of_evolves hroot h
  refine ⟨fun {raw e type t'} he htype hplain hon => ?_, fun {raw item t'} hon => ?_,
    fun {index raw item t'} hon => ?_, fun {raws items t'} hon => ?_⟩
  · have hput := put_setLeaf (x := x) hs hf.declared raw fun {e' type'} he' htype' => by
      obtain rfl : e = e' := Option.some.inj (he.symm.trans he')
      obtain rfl : type = type' := Except.ok.inj (htype.symm.trans htype')
      exact hplain
    obtain ⟨p, slot, value, hp, hheld, hvalue, hput, hself⟩ := hput.of_ok hon
    exact ⟨slot, value, hheld, hvalue, hput.obeys hf hs hp he fun _ => hself⟩
  · obtain ⟨p, l, l', hp, hheld, hedit, hput, hself⟩ := (put_editItem hs hf.declared _).of_ok hon
    obtain ⟨v, -, hedit⟩ := bind_eq_ok.1 hedit
    obtain ⟨rfl, rfl⟩ := Prod.mk.inj (pure_eq_ok.1 hedit)
    obtain ⟨e, he, -⟩ := held_eq_some_iff.1 hheld
    exact ⟨l, hheld, hput.obeys hf hs hp he hself⟩
  · obtain ⟨p, l, l', hp, hheld, hedit, hput, hself⟩ := (put_editItem hs hf.declared _).of_ok hon
    obtain ⟨v, -, hedit⟩ := bind_eq_ok.1 hedit
    obtain ⟨rfl, rfl⟩ := Prod.mk.inj (pure_eq_ok.1 hedit)
    obtain ⟨e, he, -⟩ := held_eq_some_iff.1 hheld
    exact ⟨l, hheld, hput.obeys hf hs hp he hself⟩
  · obtain ⟨p, l, hp, hheld, hput, hself⟩ := (put_extend hs hf.declared raws).of_ok hon
    obtain ⟨e, he, -⟩ := held_eq_some_iff.1 hheld
    exact ⟨l, hheld, hput.obeys hf hs hp he hself⟩

/-! ## A session -/

/-- Tags, which may belong to a case of their own within the one they are in, and beside them
a text of another case and a note. -/
def tagging (case : Option Case) : Blueprint :=
  .container
    [⟨"inner", some ⟨"mode", "inner"⟩, .container [⟨"tag", case, .leafList ⟨[.string]⟩⟩]⟩,
      ⟨"other", some ⟨"mode", "other"⟩, .leaf .string⟩, ⟨"note", none, .leaf .string⟩]

/-- A text and a note, and no tags. -/
def untagged (case : Option Case) : Tree :=
  let made := (Operation.instantiate (tagging case) { name := "root" }).after {}
  let set := (Operation.setLeaf ⟨3⟩ (.text "plain")).after made
  (Operation.setLeaf ⟨4⟩ (.text "kept")).after set

theorem evolves_untagged (case : Option Case) :
    Evolves (tagging case) { name := "root" } (untagged case) := by
  have hmade : Evolves (tagging case) { name := "root" } _ := .refl
  have hset := hmade.andThen (.setLeaf ⟨3⟩ (.text "plain")) trivial
  exact hset.andThen (.setLeaf ⟨4⟩ (.text "kept")) trivial

/-- The first tag displaces the text, and the note stays. -/
theorem obeys_untagged :
    ∃ item t', (append ⟨2⟩ (.text "blue")).on (untagged none) = (.ok item, t') ∧
      (untagged none).Keeps ⟨2⟩ t' ∧ t'.Laden ⟨2⟩ ∧ ¬ t'.Laden ⟨3⟩ ∧ t'.Laden ⟨4⟩ := by
  have hapart : (tagging none).root.Apart := by
    simp [tagging, Blueprint.declared, declareAll, declare, Schema.Apart, Schema.AllApart,
      Schema.MembersApart, Schema.choices, Schema.choicesOf]
  have hok : ((append ⟨2⟩ (.text "blue")).on (untagged none)).1.isOk = true := by decide +kernel
  cases hon : (append ⟨2⟩ (.text "blue")).on (untagged none) with
  | mk r t' =>
    rw [hon] at hok
    obtain ⟨item, rfl⟩ : ∃ item, r = .ok item := by
      cases r with
      | ok item => exact ⟨item, rfl⟩
      | error err => cases hok
    have hall := obeys_of_evolves rfl (evolves_untagged none) ⟨2⟩
    obtain ⟨l, -, hobeys⟩ := hall.2.1 hon
    have ht' : t' = ((append ⟨2⟩ (.text "blue")).on (untagged none)).2 := by rw [hon]
    refine ⟨item, t', rfl, (hobeys.apart hapart).2, ?_, ?_, ?_⟩
    · obtain ⟨e, he, hc⟩ := held_eq_some_iff.1 (hobeys.apart hapart).1
      exact ⟨e, he, by simp [hc, Content.holdsData, LeafList.isEmpty]⟩
    · rw [laden_iff, ht']
      decide +kernel
    · rw [laden_iff, ht']
      decide +kernel

/-- If the tags belong to a choice of the same name, they are lost as soon as they are
added. -/
theorem not_obeys_shadowed :
    ¬ ∀ schema spec t x raw item t', spec.parent = none → Evolves schema spec t →
      (append x raw).on t = (.ok item, t') →
      ∃ l, t.held x = some (.leafList l) ∧
        t'.held x = some (.leafList { l with items := l.items ++ [item] }) ∧ t.Keeps x t' := by
  intro hall
  let case : Option Case := some ⟨"mode", "tags"⟩
  have hok : ((append ⟨2⟩ (.text "blue")).on (untagged case)).1.isOk = true := by decide +kernel
  have hgone : (((append ⟨2⟩ (.text "blue")).on (untagged case)).2.element? ⟨2⟩).any
      (·.content.holdsData) = false := by decide +kernel
  cases hon : (append ⟨2⟩ (.text "blue")).on (untagged case) with
  | mk r t' =>
    rw [hon] at hok hgone
    cases r with
    | error err => cases hok
    | ok item =>
      obtain ⟨l, -, hheld, -⟩ := hall _ _ _ _ _ _ _ rfl (evolves_untagged case) hon
      obtain ⟨e, he, hc⟩ := held_eq_some_iff.1 hheld
      rw [he, Option.any_some, hc] at hgone
      simp [Content.holdsData, LeafList.isEmpty] at hgone

end Tree

end DataTree
