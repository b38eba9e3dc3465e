import DataTree.Proofs.Entries
import DataTree.Proofs.Structure.Unset

/-!
# DataTree.Proofs.Choice.Basic

What it means that at most one case of a choice holds data.

`Exclusive` says it of the choice tables.  For proofs it is turned into a statement
about single elements: what is in a member of one case has the members of the other
cases as its `Rival`s, and while it holds data, no data is within these
(`Sound.exclusive_iff`).

`Fades` relates a tree to a later one in which data and elements may be gone, but no
container has lost a child.  Fading never breaks exclusivity.
-/

namespace DataTree

open Edit Outcome

/-- Different cases of one choice. -/
def Case.Rivals (k k' : Case) : Prop := k.choice = k'.choice ∧ k.case ≠ k'.case

theorem Case.Rivals.symm {k k' : Case} (h : k.Rivals k') : k'.Rivals k := ⟨h.1.symm, Ne.symm h.2⟩

namespace ChoiceTable

/-- A case has a member. -/
def Has (t : ChoiceTable) (k : Case) (member : String) : Prop :=
  ∃ members, (k.case, members) ∈ t.cases k.choice ∧ member ∈ members

/-- The siblings of a case are the members of its rivals. -/
theorem mem_siblings {t : ChoiceTable} {active k : Case} {member : String} (h : t.Has k member)
    (hr : active.Rivals k) : (k.case, member) ∈ t.siblings active := by
  obtain ⟨members, hm, hmem⟩ := h
  rw [← hr.1] at hm
  simp only [siblings, List.mem_flatMap, List.mem_filter, List.mem_map, decide_eq_true_eq]
  exact ⟨(k.case, members), ⟨hm, Ne.symm hr.2⟩, member, hmem, rfl⟩

/-- A sibling of a case is a member of a rival case. -/
theorem has_of_mem_siblings {t : ChoiceTable} {active : Case} {sibling : String × String}
    (h : sibling ∈ t.siblings active) :
    t.Has ⟨active.choice, sibling.1⟩ sibling.2 ∧ active.Rivals ⟨active.choice, sibling.1⟩ := by
  simp only [siblings, List.mem_flatMap, List.mem_filter, List.mem_map, decide_eq_true_eq] at h
  obtain ⟨⟨case, members⟩, ⟨hcase, hne⟩, member, hmem, rfl⟩ := h
  exact ⟨⟨members, hcase, hmem⟩, rfl, Ne.symm hne⟩

/-- A table without choices has no members. -/
theorem not_has_empty (k : Case) (member : String) : ¬ ({} : ChoiceTable).Has k member := by
  intro h
  obtain ⟨members, hm, -⟩ := h
  cases hm

/-- Declaring a member adds no other one. -/
theorem has_of_addMember {t : ChoiceTable} {case k : Case} {new member : String}
    (h : (t.addMember case new).Has k member) : t.Has k member ∨ k = case ∧ member = new := by
  obtain ⟨members, hm, hmem⟩ := h
  by_cases hc : k.choice = case.choice
  · have hcases : (t.addMember case new).cases k.choice
        = Assoc.modify case.case [] (· ++ [new]) (t.cases k.choice) := by
      simp [cases, addMember, Assoc.modify, hc]
    rw [hcases, Assoc.modify] at hm
    obtain heq | hm := Assoc.mem_of_mem_insert hm
    · obtain ⟨hcase, rfl⟩ := Prod.mk.inj heq
      have hk : k = case := by
        cases k
        cases case
        simp_all
      obtain hold | hnew := List.mem_append.1 hmem
      · cases hg : Assoc.get? case.case (t.cases k.choice) with
        | none => simp [hg] at hold
        | some old =>
          rw [hg, Option.getD_some] at hold
          exact .inl ⟨old, hcase ▸ Assoc.mem_of_get?_eq_some hg, hold⟩
      · exact .inr ⟨hk, List.mem_singleton.1 hnew⟩
    · exact .inl ⟨members, hm, hmem⟩
  · have hcases : (t.addMember case new).cases k.choice = t.cases k.choice := by
      simp [cases, addMember, Assoc.modify, Assoc.get?_insert_of_ne hc]
    exact .inl ⟨members, hcases ▸ hm, hmem⟩

end ChoiceTable

/-- Nor does entering a field. -/
theorem Tree.has_of_addField {name : String} {case : Option Case} {isLeaf : Bool}
    {child : ElementId}
    {e : Element} {k : Case} {m : String}
    (h : (addField name case isLeaf child e).choices.Has k m) :
    e.choices.Has k m ∨ (case = some k ∧ m = name) := by
  cases case with
  | none => exact .inl h
  | some case =>
    exact (ChoiceTable.has_of_addMember h).imp_right fun hnew => ⟨congrArg some hnew.1.symm, hnew.2⟩

namespace Tree

variable {t t' : Tree} {pending : Set ElementId} {id b c x y : ElementId} {e : Element}

/-! ## Exclusivity -/

/-- The element itself holds data. -/
def Laden (t : Tree) (x : ElementId) : Prop :=
  ∃ e, t.element? x = some e ∧ e.content.holdsData = true

/-- Whether an element holds data can be read off its content. -/
theorem laden_iff_held :
    t.Laden x ↔ ∃ content, t.held x = some content ∧ content.holdsData = true := by
  constructor
  · intro hx
    obtain ⟨e, he, hd⟩ := hx
    exact ⟨e.content, held_eq_some_iff.2 ⟨e, he, rfl⟩, hd⟩
  · intro hx
    obtain ⟨content, hc, hd⟩ := hx
    obtain ⟨e, he, rfl⟩ := held_eq_some_iff.1 hc
    exact ⟨e, he, hd⟩

theorem laden_of_held (h : t'.held x = t.held x) : t'.Laden x ↔ t.Laden x := by
  rw [laden_iff_held, laden_iff_held, h]

/-- The element or something under it holds data: a leaf its value, a leaf-list items,
a list entries. -/
def HoldsData (t : Tree) (id : ElementId) : Prop := ∃ x, t.Under id x ∧ t.Laden x

/-- In every container and every choice of it, the members that hold data belong to one
case. -/
def Exclusive (t : Tree) : Prop :=
  ∀ ⦃id e k k' m m' c c'⦄, t.element? id = some e → e.choices.Has k m → e.choices.Has k' m' →
    k.choice = k'.choice → (m, c) ∈ e.children → (m', c') ∈ e.children →
    t.HoldsData c → t.HoldsData c' → k = k'

/-- What holds data under an element shows within it: a list on the way has an entry. -/
theorem Sound.holdsData_iff (h : Sound t pending) :
    t.HoldsData id ↔ ∃ x, t.Within id x ∧ t.Laden x := by
  constructor
  · intro hd
    obtain ⟨x, hu, hx⟩ := hd
    obtain hw | ⟨k, ke, hk, hke, hc, hku, hne⟩ := h.within_or_below hu
    · exact ⟨x, hw, hx⟩
    · refine ⟨k, hk, ke, hke, ?_⟩
      by_contra hdata
      rw [Bool.not_eq_true] at hdata
      refine hne (eq_of_under_of_below hke ?_ hku)
      rw [Element.below_eq, h.children_eq_nil hke hc, Content.links_eq_nil hdata]
      rfl
  · intro hd
    obtain ⟨x, hw, hx⟩ := hd
    exact ⟨x, hw.under, hx⟩

/-- The element `x` is in a member of one case, and `b` is a member of another case of the
same choice. -/
def Rival (t : Tree) (x b : ElementId) : Prop :=
  ∃ id e k k' m m' c, t.element? id = some e ∧ e.choices.Has k m ∧ e.choices.Has k' m' ∧
    k.Rivals k' ∧ (m, c) ∈ e.children ∧ (m', b) ∈ e.children ∧ t.Within c x

/-- Exclusivity, said of the elements that hold data. -/
theorem Sound.exclusive_iff (h : Sound t pending) :
    t.Exclusive ↔ ∀ {x b y}, t.Laden x → t.Rival x b → t.Within b y → ¬ t.Laden y := by
  constructor
  · intro hex x b y hx hr hw hy
    obtain ⟨id, e, k, k', m, m', c, he, hk, hk', hkk, hm, hm', hcx⟩ := hr
    have hc : t.HoldsData c := ⟨x, hcx.under, hx⟩
    have hb : t.HoldsData b := ⟨y, hw.under, hy⟩
    obtain rfl := hex he hk hk' hkk.1 hm hm' hc hb
    exact hkk.2 rfl
  · intro hall id e k k' m m' c c' he hk hk' hchoice hm hm' hc hc'
    by_contra hne
    have hkk : k.Rivals k' := by
      refine ⟨hchoice, fun hcase => hne ?_⟩
      cases k
      cases k'
      simp_all
    obtain ⟨x, hcx, hx⟩ := h.holdsData_iff.1 hc
    obtain ⟨y, hcy, hy⟩ := h.holdsData_iff.1 hc'
    exact hall hx ⟨id, e, k, k', m, m', c, he, hk, hk', hkk, hm, hm', hcx⟩ hcy hy

/-- An element is not within its own rivals, if every member has one case. -/
theorem Sound.not_within_of_rival (h : Sound t pending)
    (hone : ∀ {id e m c k k'}, t.element? id = some e → (m, c) ∈ e.children → e.choices.Has k m →
      e.choices.Has k' m → k = k')
    (hr : t.Rival x b) : ¬ t.Within b x := by
  intro hw
  obtain ⟨id, e, k, k', m, m', c, he, hk, hk', hkk, hm, hm', hcx⟩ := hr
  have hne : c ≠ b := by
    intro hcb
    subst hcb
    obtain ⟨-, -, ce, hce, -, hname, -⟩ := h.child he hm
    obtain ⟨-, -, ce', hce', -, hname', -⟩ := h.child he hm'
    obtain rfl : ce = ce' := Option.some.inj (hce.symm.trans hce')
    obtain rfl : m = m' := hname.symm.trans hname'
    exact hkk.2 (congrArg Case.case (hone he hm hk hk'))
  have hnot : ∀ {a d n n'}, (n, a) ∈ e.children → (n', d) ∈ e.children → a ≠ d → ¬ t.Under a d := by
    intro a d n n' ha hd had hu
    obtain ⟨de, q, hde, hq, hqu, -⟩ := h.parent_of_under hu (Ne.symm had)
    obtain ⟨-, -, de', hde', hpar, -⟩ := h.child he hd
    obtain rfl : de = de' := Option.some.inj (hde.symm.trans hde')
    obtain rfl : q = id := Option.some.inj (hq.symm.trans hpar)
    have hle := h.index_le_of_under hqu
    have hlt := (h.of_above ⟨e, he, Element.mem_below_of_child ha⟩).2.1
    omega
  obtain hu | hu := h.under_or_under hcx.under hw.under
  · exact hnot hm hm' hne hu
  · exact hnot hm' hm (Ne.symm hne) hu

/-- Exclusivity, but for what one element holds. -/
def ExclusiveBut (t : Tree) (x : ElementId) : Prop :=
  ∀ ⦃z b y⦄, z ≠ x → y ≠ x → t.Laden z → t.Rival z b → t.Within b y → ¬ t.Laden y

/-- If no rival of an element holds data, what the element holds does no harm. -/
theorem Sound.exclusive_of_rivals (h : Sound t pending) (hbut : t.ExclusiveBut x)
    (hx : ∀ {b y}, t.Rival x b → t.Within b y → ¬ t.Laden y) : t.Exclusive := by
  refine h.exclusive_iff.2 fun {z b y} hz hr hw hy => ?_
  by_cases hzx : z = x
  · subst hzx
    exact hx hr hw hy
  · by_cases hyx : y = x
    · subst hyx
      -- Being rivals is mutual.
      obtain ⟨id, e, k, k', m, m', c, he, hk, hk', hkk, hm, hm', hcz⟩ := hr
      exact hx ⟨id, e, k', k, m', m, b, he, hk', hk, hkk.symm, hm', hm, hw⟩ hcz hz
    · exact hbut hzx hyx hz hr hw hy

/-! ## Losing children, elements and data -/

/-- Children and elements may be gone. -/
def Thins (t t' : Tree) : Prop :=
  ∀ ⦃id e'⦄, t'.element? id = some e' → ∃ e, t.element? id = some e ∧ e'.bare = e.bare ∧
    e'.children ⊆ e.children

instance : IsPreorder Tree Thins where
  refl _ _ _ he := ⟨_, he, rfl, List.Subset.refl _⟩
  trans _ _ _ h h' _ _ he := by
    obtain ⟨e₂, he₂, hb₂, hc₂⟩ := h' he
    obtain ⟨e₁, he₁, hb₁, hc₁⟩ := h he₂
    exact ⟨e₁, he₁, hb₂.trans hb₁, List.Subset.trans hc₂ hc₁⟩

/-- What gets less gets thin. -/
theorem Shrinks.thins (h : t.Shrinks t') : t.Thins t' := by
  intro id e' he'
  obtain ⟨e, he, hs⟩ := h.element he'
  exact ⟨e, he, hs.bare, hs.children.subset⟩

theorem Thins.contains (h : t.Thins t') (hc : t'.Contains id c) : t.Contains id c := by
  obtain ⟨e', name, he', hm⟩ := hc
  obtain ⟨e, he, -, hch⟩ := h he'
  exact ⟨e, name, he, hch hm⟩

/-- What is under an element was under it before. -/
theorem Thins.within (h : t.Thins t') (hw : t'.Within id x) : t.Within id x :=
  Relation.ReflTransGen.mono (fun p c (hc : t'.Contains p c) => h.contains hc) _ _ hw

/-- Rivals were rivals before. -/
theorem Thins.rival (h : t.Thins t') (hr : t'.Rival x b) : t.Rival x b := by
  obtain ⟨id, e', k, k', m, m', c, he', hk, hk', hkk, hm, hm', hcx⟩ := hr
  obtain ⟨e, he, hb, hch⟩ := h he'
  rw [Element.choices_of_bare hb] at hk hk'
  exact ⟨id, e, k, k', m, m', c, he, hk, hk', hkk, hch hm, hch hm', h.within hcx⟩

/-- What is still there has kept its children; data may be new or gone. -/
def Retains (t t' : Tree) : Prop :=
  ∀ ⦃id e'⦄, t'.element? id = some e' → ∃ e, t.element? id = some e ∧ e'.bare = e.bare ∧
    e'.children = e.children

instance : IsPreorder Tree Retains where
  refl _ _ _ he := ⟨_, he, rfl, rfl⟩
  trans _ _ _ h h' _ _ he := by
    obtain ⟨e₂, he₂, hb₂, hc₂⟩ := h' he
    obtain ⟨e₁, he₁, hb₁, hc₁⟩ := h he₂
    exact ⟨e₁, he₁, hb₂.trans hb₁, hc₂.trans hc₁⟩

/-- A tree that keeps its frame keeps its children. -/
theorem SameFrame.retains (h : t.SameFrame t') : t.Retains t' := by
  intro id e' he'
  obtain ⟨e, he, hf⟩ := h.element? he'
  obtain ⟨hb, hch, -⟩ := Element.frame_eq_iff.1 hf
  exact ⟨e, he, hb, hch⟩

/-- Elements that keep their children keep what was declared. -/
theorem Declared.retains (hd : t.Declared) (h : t.Retains t') : t'.Declared := by
  intro id e' he'
  obtain ⟨e, he, hb, -⟩ := h he'
  exact Content.isDeclared_of_bare (Element.content_of_bare hb) (hd he)

/-- Putting an entry into a list fills the list only. -/
theorem retains_enlisted (t : Tree) (id : ElementId) (l : KeyedList) (key : String)
    (entry : ElementId) : t.Retains (t.enlisted id l key entry) := by
  intro x e' he'
  rw [element?_enlisted] at he'
  obtain ⟨e, he, rfl | ⟨-, l', hl, rfl⟩⟩ := relist_cases he'
  · exact ⟨e', he, rfl, rfl⟩
  · exact ⟨e, he, by simp [Element.bare, Content.bare, KeyedList.insert, hl], rfl⟩

/-- A tree that keeps children gets thin at most. -/
theorem Retains.thins (h : t.Retains t') : t.Thins t' := by
  intro id e' he'
  obtain ⟨e, he, hb, hch⟩ := h he'
  exact ⟨e, he, hb, hch ▸ List.Subset.refl _⟩

/-- Data and elements may be gone, but no container has lost a child. -/
def Fades (t t' : Tree) : Prop :=
  ∀ ⦃id e'⦄, t'.element? id = some e' → ∃ e, t.element? id = some e ∧ e'.bare = e.bare ∧
    e'.children = e.children ∧ (e'.content.holdsData = true → e.content.holdsData = true)

instance : IsPreorder Tree Fades where
  refl _ _ _ he := ⟨_, he, rfl, rfl, fun h => h⟩
  trans _ _ _ h h' _ _ he := by
    obtain ⟨e₂, he₂, hb₂, hc₂, hd₂⟩ := h' he
    obtain ⟨e₁, he₁, hb₁, hc₁, hd₁⟩ := h he₂
    exact ⟨e₁, he₁, hb₂.trans hb₁, hc₂.trans hc₁, fun hd => hd₁ (hd₂ hd)⟩

/-- Fading takes no child. -/
theorem Fades.retains (h : t.Fades t') : t.Retains t' := by
  intro id e' he'
  obtain ⟨e, he, hb, hch, -⟩ := h he'
  exact ⟨e, he, hb, hch⟩

theorem Fades.thins (h : t.Fades t') : t.Thins t' := h.retains.thins

/-- What still holds data held some before. -/
theorem Fades.laden (h : t.Fades t') (hx : t'.Laden x) : t.Laden x := by
  obtain ⟨e', he', hd⟩ := hx
  obtain ⟨e, he, -, -, hdata⟩ := h he'
  exact ⟨e, he, hdata hd⟩

/-- What fades stays exclusive. -/
theorem Fades.exclusive {pending' : Set ElementId} (hf : t.Fades t') (h : Sound t pending)
    (h' : Sound t' pending') (hex : t.Exclusive) : t'.Exclusive := by
  refine h'.exclusive_iff.2 fun {x b y} hx hr hw hy => ?_
  exact h.exclusive_iff.1 hex (hf.laden hx) (hf.thins.rival hr) (hf.thins.within hw) (hf.laden hy)

/-- Exclusivity is not lost by fading. -/
theorem Fades.exclusiveBut (hf : t.Fades t') (hex : t.ExclusiveBut x) : t'.ExclusiveBut x :=
  fun _ _ _ hz hy hlz hr hw hly =>
    hex hz hy (hf.laden hlz) (hf.thins.rival hr) (hf.thins.within hw) (hf.laden hly)

/-- Data is in the slots alone. -/
theorem fades_of_slots (h : t'.slots = t.slots) : t.Fades t' := fun id e' he' =>
  ⟨e', element?_congr h id ▸ he', rfl, rfl, fun hd => hd⟩

/-- A tree fades with an element that gets no data. -/
theorem fades_modifyElement {f : Element → Element}
    (h : ∀ e, t.element? id = some e → (f e).bare = e.bare ∧ (f e).children = e.children ∧
      ((f e).content.holdsData = true → e.content.holdsData = true)) :
    t.Fades (t.modifyElement id f) := by
  intro x e' he'
  obtain ⟨e, he, ⟨rfl, rfl⟩ | ⟨-, rfl⟩⟩ := modifyElement_cases he'
  · exact ⟨e, he, h e he⟩
  · exact ⟨e', he, rfl, rfl, fun hd => hd⟩

/-- The same for an edit that changes an element. -/
theorem fades_update {f : Element → Element} (h : ∀ e, (f e).bare = e.bare ∧
    (f e).children = e.children ∧ ((f e).content.holdsData = true → e.content.holdsData = true)) :
    Leads Fades (update id f) := leads_update fun _ _ _ => fades_modifyElement fun e _ => h e

theorem fades_markChanged (ids : List ElementId) : Leads Fades (markChanged ids) :=
  leads_forM fun _ _ => fades_update fun _ => ⟨rfl, rfl, fun hd => hd⟩

theorem fades_restoreMarks (marks : List (ElementId × Bool)) : Leads Fades (restoreMarks marks) :=
  leads_forM fun _ _ => fades_update fun _ => ⟨rfl, rfl, fun hd => hd⟩

/-- Unsetting lets data fade. -/
theorem Unsets.fades (h : Unsets id t t') : t.Fades t' := by
  intro x e' he'
  by_cases hw : t.Within id x
  · rw [h.within hw] at he'
    obtain ⟨e, he, rfl⟩ := Option.map_eq_some_iff.1 he'
    refine ⟨e, he, ?_, rfl, fun hd => ?_⟩
    · simp [Element.bare, Element.emptied]
    · rw [Element.emptied, Content.holdsData_bare] at hd
      cases hd
  · by_cases hu : t.Under id x
    · rw [h.gone hu hw] at he'
      cases he'
    · rw [h.stays hu] at he'
      exact ⟨e', he', rfl, rfl, fun hd => hd⟩

/-- What was unset holds no data. -/
theorem Unsets.not_laden (h : Unsets id t t') (hw : t'.Within id x) : ¬ t'.Laden x := by
  intro hx
  obtain ⟨e', he', hd⟩ := hx
  rw [h.within (h.fades.thins.within hw)] at he'
  obtain ⟨e, he, rfl⟩ := Option.map_eq_some_iff.1 he'
  rw [Element.emptied, Content.holdsData_bare] at hd
  cases hd

end Tree

end DataTree
