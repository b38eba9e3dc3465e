import DataTree.Proofs.Structure.WellFormed
import DataTree.Proofs.Choice.Build

/-!
# DataTree.Proofs.Schema.Nodes

Which node of its schema every element of a tree stands for.

`Follows t schema node` says that the elements of a tree and the nodes that `node`
gives them agree: in what they hold, in what is below them, and in the cases that
children belong to.  Everything but building goes along `Shrinks` and keeps the nodes
as they are; building gives nodes to new slots only.  So every tree that came out of a
single schema follows it (`follows_of_evolves`), and what a schema passes down to its
nodes holds of every element (`Follows.inherits`).
-/

namespace DataTree

open Edit Outcome

namespace Schema

/-- What an element of a node holds when it is made. -/
def content : Schema → Content
  | leaf type _ => .leaf { type }
  | leafList type _ => .leafList { type }
  | container _ _ => .container
  | list entries _ => .list { schema := entries }

/-- What a node declares directly below it. -/
def children : Schema → List (Child Schema)
  | container children _ => children
  | _ => []

/-- The node of the entries of a list. -/
def ofEntry (list : ListSchema Schema) : Schema := container list.entry .empty

@[simp] theorem bare_content (n : Schema) : n.content.bare = n.content := by
  cases n <;> rfl

/-- What a node makes is what was declared. -/
theorem isDeclared_content (n : Schema) : n.content.IsDeclared := by
  cases n <;> trivial

end Schema

namespace Tree

variable {t t' t'' : Tree} {id c x : ElementId} {e : Element} {schema n : Schema}
  {node node' node'' : ElementId → Schema} {spec : ElementSpec}

/-! ## Trees of a schema -/

/-- Every element stands for a node: it holds what the node says, and what is below it
stands for what the node declares. -/
structure Follows (t : Tree) (schema : Schema) (node : ElementId → Schema) : Prop where
  shape : ∀ {id e}, t.element? id = some e → e.content.bare = (node id).content
  root : ∀ {id e}, t.element? id = some e → e.parent = none → node id = schema
  child : ∀ {id e name c}, t.element? id = some e → (name, c) ∈ e.children →
    c.index < t.slots.size ∧ ∃ case, ⟨name, case, node c⟩ ∈ (node id).children ∧
      ∀ {ce}, t.element? c = some ce → ce.case = case
  entry : ∀ {id e l key c}, t.element? id = some e → e.content = .list l → (key, c) ∈ l.members →
    c.index < t.slots.size ∧ node c = .ofEntry l.schema ∧
      ∀ {ce}, t.element? c = some ce → ce.case = none
  member : ∀ {id e k m}, t.element? id = some e → e.choices.Has k m →
    ∃ n, ⟨m, some k, n⟩ ∈ (node id).children
  setter : ∀ {id e field leaf}, t.element? id = some e → (field, leaf) ∈ e.setters →
    leaf.index < t.slots.size ∧ ∃ case, ⟨field, case, node leaf⟩ ∈ (node id).children

theorem follows_empty (schema : Schema) (node : ElementId → Schema) : Follows {} schema node := by
  have hnone : ∀ id, ({} : Tree).element? id = none := fun id => by simp [element?]
  constructor <;> simp [hnone]

/-- A tree that gets less still follows its schema. -/
theorem Follows.shrinks (h : t.Follows schema node) (hs : t.Shrinks t') :
    t'.Follows schema node := by
  have hcase : ∀ {c ce'}, t'.element? c = some ce' →
      ∃ ce, t.element? c = some ce ∧ ce'.case = ce.case := by
    intro c ce' hce'
    obtain ⟨ce, hce, hse⟩ := hs.element hce'
    exact ⟨ce, hce, Element.case_of_bare hse.bare⟩
  constructor
  case shape =>
    intro id e' he'
    obtain ⟨e, he, hse⟩ := hs.element he'
    rw [Element.content_of_bare hse.bare, h.shape he]
  case root =>
    intro id e' he' hp
    obtain ⟨e, he, hse⟩ := hs.element he'
    exact h.root he (Element.parent_of_bare hse.bare ▸ hp)
  case child =>
    intro id e' name c he' hm
    obtain ⟨e, he, hse⟩ := hs.element he'
    obtain ⟨hlt, case, hdecl, hc⟩ := h.child he (hse.children.subset hm)
    refine ⟨hs.size ▸ hlt, case, hdecl, fun hce' => ?_⟩
    obtain ⟨ce, hce, heq⟩ := hcase hce'
    rw [heq, hc hce]
  case entry =>
    intro id e' l' key c he' hl hm
    obtain ⟨e, he, hse⟩ := hs.element he'
    obtain ⟨members, hcont, hsub⟩ := hse.list hl
    obtain ⟨hlt, hnode, hc⟩ := h.entry he hcont (hsub.subset hm)
    refine ⟨hs.size ▸ hlt, hnode, fun hce' => ?_⟩
    obtain ⟨ce, hce, heq⟩ := hcase hce'
    rw [heq, hc hce]
  case member =>
    intro id e' k m he' hk
    obtain ⟨e, he, hse⟩ := hs.element he'
    rw [Element.choices_of_bare hse.bare] at hk
    exact h.member he hk
  case setter =>
    intro id e' field leaf he' hm
    obtain ⟨e, he, hse⟩ := hs.element he'
    rw [Element.setters_of_bare hse.bare] at hm
    rw [hs.size]
    exact h.setter he hm

/-- Whether a tree follows a schema is up to the slots. -/
theorem Follows.of_slots (h : t.Follows schema node) (hs : t'.slots = t.slots) :
    t'.Follows schema node := by
  have hel := element?_congr hs
  constructor
  case shape => exact fun he => h.shape (hel _ ▸ he)
  case root => exact fun he => h.root (hel _ ▸ he)
  case child =>
    intro id e name c he hm
    rw [hs, hel]
    exact h.child (hel id ▸ he) hm
  case entry =>
    intro id e l key c he hl hm
    rw [hs, hel]
    exact h.entry (hel id ▸ he) hl hm
  case member => exact fun he => h.member (hel _ ▸ he)
  case setter =>
    intro id e field leaf he hm
    rw [hs]
    exact h.setter (hel id ▸ he) hm

/-- A tree that follows a schema holds what was declared. -/
theorem Follows.declared (h : t.Follows schema node) : t.Declared := by
  intro id e he
  refine Content.isDeclared_of_bare (c := (node id).content) ?_ (node id).isDeclared_content
  rw [h.shape he, Schema.bare_content]

/-- A list has the schema of its node. -/
theorem Follows.schema_eq (h : t.Follows schema node) {l : KeyedList} (he : t.element? id = some e)
    (hl : e.content = .list l) : ∃ default, node id = .list l.schema default := by
  have hshape := h.shape he
  rw [hl] at hshape
  cases hn : node id with
  | list entries default =>
    rw [hn] at hshape
    simp only [Content.bare, Schema.content, Content.list.injEq, KeyedList.mk.injEq,
      and_true] at hshape
    exact ⟨default, by rw [hshape]⟩
  | _ => simp [hn, Content.bare, Schema.content] at hshape

/-- A leaf has the type of its node. -/
theorem Follows.type_eq (h : t.Follows schema node) {slot : LeafSlot} (he : t.element? id = some e)
    (hc : e.content = .leaf slot) : ∃ default, node id = .leaf slot.type default := by
  have hshape := h.shape he
  rw [hc] at hshape
  cases hn : node id with
  | leaf type default =>
    rw [hn] at hshape
    simp only [Content.bare, Schema.content, Content.leaf.injEq, LeafSlot.mk.injEq,
      and_true] at hshape
    exact ⟨default, by rw [hshape]⟩
  | _ => simp [hn, Content.bare, Schema.content] at hshape

/-- **Inheritance**: what a schema passes down to its nodes holds of the node of every
element. -/
theorem Follows.inherits (h : t.Follows schema node) (hs : Sound t ∅) {P : Schema → Prop}
    (hroot : P schema) (hchild : ∀ n, P n → ∀ child ∈ n.children, P child.node)
    (hentry : ∀ list default, P (.list list default) → P (.ofEntry list))
    (he : t.element? id = some e) : P (node id) := by
  generalize hi : id.index = i
  induction i using Nat.strong_induction_on generalizing id e with
  | _ i ih =>
    cases hp : e.parent with
    | none =>
      rw [h.root he hp]
      exact hroot
    | some p =>
      have hlt := hs.parent_lt he hp
      obtain ⟨pe, hpe, hbelow⟩ := hs.listed he hp (Set.notMem_empty id)
      have hP := ih p.index (by omega) hpe rfl
      obtain ⟨name, hm⟩ | ⟨l, key, hl, hm⟩ := Element.mem_below hbelow
      · obtain ⟨-, case, hdecl, -⟩ := h.child hpe hm
        exact hchild _ hP _ hdecl
      · obtain ⟨-, hnode, -⟩ := h.entry hpe hl hm
        obtain ⟨default, hlist⟩ := h.schema_eq hpe hl
        rw [hnode]
        exact hentry _ _ (hlist ▸ hP)

/-! ## Building -/

/-- The later tree follows the schema too, and everything that is still there stands for the
node that it stood for, in the case that it belonged to. -/
structure Extends (t : Tree) (schema : Schema) (node : ElementId → Schema) (t' : Tree)
    (node' : ElementId → Schema) : Prop where
  size_le : t.slots.size ≤ t'.slots.size
  node_eq : ∀ {x : ElementId}, x.index < t.slots.size → node' x = node x
  case_eq : ∀ {x e'}, x.index < t.slots.size → t'.element? x = some e' →
    ∃ e, t.element? x = some e ∧ e'.case = e.case
  follows : t'.Follows schema node'

/-- One extension after the other. -/
theorem Extends.trans (h : t.Extends schema node t' node')
    (h' : t'.Extends schema node' t'' node'') :
    t.Extends schema node t'' node'' where
  size_le := Nat.le_trans h.size_le h'.size_le
  node_eq := fun hx => by rw [h'.node_eq (Nat.lt_of_lt_of_le hx h.size_le), h.node_eq hx]
  case_eq := fun hx he => by
    obtain ⟨e', he', hc'⟩ := h'.case_eq (Nat.lt_of_lt_of_le hx h.size_le) he
    obtain ⟨e, he, hc⟩ := h.case_eq hx he'
    exact ⟨e, he, hc'.trans hc⟩
  follows := h'.follows

theorem Follows.extends (h : t.Follows schema node) : t.Extends schema node t node :=
  ⟨Nat.le_refl _, fun _ => rfl, fun _ he => ⟨_, he, rfl⟩, h⟩

/-- An extension that gets less is one still. -/
theorem Extends.shrinks (h : t.Extends schema node t' node') (hs : t'.Shrinks t'') :
    t.Extends schema node t'' node' :=
  h.trans
    { size_le := Nat.le_of_eq hs.size.symm
      node_eq := fun _ => rfl
      case_eq := fun _ he => by
        obtain ⟨e, he, hse⟩ := hs.element he
        exact ⟨e, he, Element.case_of_bare hse.bare⟩
      follows := h.follows.shrinks hs }

/-- What was made for a node stands for that node. -/
structure Stands (t : Tree) (schema : Schema) (node : ElementId → Schema) (n : Schema)
    (case : Option Case) (id : ElementId) (t' : Tree) (node' : ElementId → Schema) : Prop extends
    Extends t schema node t' node' where
  id_eq : id = ⟨t.slots.size⟩
  size_lt : t.slots.size < t'.slots.size
  node_id : node' id = n
  case_self : ∀ {e}, t'.element? id = some e → e.case = case

/-- A root stands for the whole schema, and a new child of a container for something that
the container declares. -/
structure Awaits (t : Tree) (schema : Schema) (node : ElementId → Schema) (spec : ElementSpec)
    (n : Schema) : Prop where
  root : spec.parent = none → n = schema
  child : ∀ {p pe}, spec.parent = some p → t.element? p = some pe → pe.content = .container →
    ⟨spec.name, spec.case, n⟩ ∈ (node p).children

/-- What a place waits for depends on the name, the parent and the case. -/
theorem Awaits.congr {spec' : ElementSpec} (h : t.Awaits schema node spec n)
    (hn : spec'.name = spec.name) (hp : spec'.parent = spec.parent) (hc : spec'.case = spec.case) :
    t.Awaits schema node spec' n := by
  refine ⟨fun hnone => h.root (hp ▸ hnone), fun hpar hpe hcont => ?_⟩
  rw [hn, hc]
  exact h.child (hp ▸ hpar) hpe hcont

/-- What was there before an element was made is in the case that it was in. -/
theorem exists_case_of_made {content : Content} (hlt : x.index < t.slots.size)
    (hx : (t.made content spec).element? x = some e) :
    ∃ e₀, t.element? x = some e₀ ∧ e.case = e₀.case := by
  obtain ⟨rfl, -⟩ | ⟨e₀, he₀, htrunk, -⟩ := made_cases hx
  · exact absurd hlt (Nat.lt_irrefl _)
  · exact ⟨e₀, he₀, Element.case_of_trunk htrunk⟩

/-- With an element more the tree follows the schema if the new one stands for its node. -/
theorem Follows.made {content : Content} (h : t.Follows schema node)
    (ha : t.Awaits schema node spec n) (hc : content = n.content)
    (hnode : ∀ {x : ElementId}, x.index < t.slots.size → node' x = node x)
    (hself : node' ⟨t.slots.size⟩ = n) : (t.made content spec).Follows schema node' := by
  have hsize : (t.made content spec).slots.size = t.slots.size + 1 := by simp [Tree.made]
  constructor
  case shape =>
    intro x xe hx
    obtain ⟨rfl, rfl⟩ | ⟨e, he, htrunk, -⟩ := made_cases hx
    · rw [hself]
      show content.bare = n.content
      rw [hc, Schema.bare_content]
    · rw [Element.content_of_trunk htrunk, hnode (index_lt_of_element? he), h.shape he]
  case root =>
    intro x xe hx hp
    obtain ⟨rfl, rfl⟩ | ⟨e, he, htrunk, -⟩ := made_cases hx
    · rw [hself]
      exact ha.root hp
    · rw [hnode (index_lt_of_element? he)]
      exact h.root he (Element.parent_of_trunk htrunk ▸ hp)
  case child =>
    intro x xe name c hx hm
    rw [hsize]
    obtain ⟨rfl, rfl⟩ | ⟨e, he, -, hchildren⟩ := made_cases hx
    · cases hm
    have hm : (name, c) ∈ e.children ∨
        (spec.parent = some x ∧ e.content = .container ∧ name = spec.name ∧
        c = ⟨t.slots.size⟩) := by
      obtain hsame | ⟨hp, hcont, hgain⟩ := hchildren
      · exact .inl (hsame ▸ hm)
      · rw [hgain] at hm
        exact (Assoc.mem_of_mem_insert hm).symm.imp_right fun heq => ⟨hp, hcont, Prod.mk.inj heq⟩
    rw [hnode (index_lt_of_element? he)]
    obtain hm | ⟨hp, hcont, rfl, rfl⟩ := hm
    · obtain ⟨hclt, case, hdecl, hc⟩ := h.child he hm
      rw [hnode hclt]
      refine ⟨Nat.lt_succ_of_lt hclt, case, hdecl, fun hce => ?_⟩
      obtain ⟨ce₀, hce₀, heq⟩ := exists_case_of_made hclt hce
      rw [heq, hc hce₀]
    · rw [hself]
      refine ⟨Nat.lt_succ_self _, spec.case, ha.child hp he hcont, fun hce => ?_⟩
      obtain rfl := Option.some.inj (element?_made_self.symm.trans hce)
      rfl
  case entry =>
    intro x xe l key c hx hl hm
    rw [hsize]
    obtain ⟨rfl, rfl⟩ | ⟨e, he, htrunk, -⟩ := made_cases hx
    · have hcont : n.content = .list l := hc ▸ hl
      cases n with
      | list entries default =>
        rw [Schema.content, Content.list.injEq] at hcont
        subst hcont
        cases hm
      | _ => cases hcont
    · obtain ⟨hclt, hentry, hc⟩ := h.entry he (Element.content_of_trunk htrunk ▸ hl) hm
      rw [hnode hclt]
      refine ⟨Nat.lt_succ_of_lt hclt, hentry, fun hce => ?_⟩
      obtain ⟨ce₀, hce₀, heq⟩ := exists_case_of_made hclt hce
      rw [heq, hc hce₀]
  case member =>
    intro x xe k m hx hk
    obtain ⟨rfl, rfl⟩ | ⟨e, he, htrunk, -⟩ := made_cases hx
    · exact absurd hk (ChoiceTable.not_has_empty k m)
    · rw [hnode (index_lt_of_element? he)]
      exact h.member he (Element.choices_of_trunk htrunk ▸ hk)
  case setter =>
    intro x xe field leaf hx hm
    rw [hsize]
    obtain ⟨rfl, rfl⟩ | ⟨e, he, htrunk, -⟩ := made_cases hx
    · cases hm
    · obtain ⟨hllt, hdecl⟩ := h.setter he (Element.setters_of_trunk htrunk ▸ hm)
      rw [hnode (index_lt_of_element? he), hnode hllt]
      exact ⟨Nat.lt_succ_of_lt hllt, hdecl⟩

/-- Making an element for a node. -/
theorem Follows.wrap {content : Content} (h : t.Follows schema node)
    (ha : t.Awaits schema node spec n) (hc : content = n.content) : (wrap content spec).Ensures t
      (fun id t' => ∃ node', t.Stands schema node n spec.case id t' node') fun _ t' => t' = t := by
  refine ensures_wrap_of (fun hparent => ?_) fun _ _ => rfl
  let node' : ElementId → Schema := fun x => if x = ⟨t.slots.size⟩ then n else node x
  have hnode : ∀ {x : ElementId}, x.index < t.slots.size → node' x = node x := fun hx =>
    if_neg fun hxn => Nat.lt_irrefl _ (hxn ▸ hx)
  have hself : node' ⟨t.slots.size⟩ = n := if_pos rfl
  exact ⟨node',
    { size_le := by simp
      node_eq := hnode
      case_eq := exists_case_of_made
      follows := h.made ha hc hnode hself
      id_eq := rfl
      size_lt := by simp
      node_id := hself
      case_self := fun he => by
        obtain rfl := Option.some.inj (element?_made_self.symm.trans he)
        rfl }⟩

/-- Entering a new child into the choices and the hooks of its container. -/
theorem Follows.addField (h : t.Follows schema node) {name : String} {case : Option Case}
    (isLeaf : Bool)
    (hlt : c.index < t.slots.size) (hm : ⟨name, case, node c⟩ ∈ (node id).children) :
    t.Extends schema node (t.modifyElement id (addField name case isLeaf c)) node := by
  have hcase : ∀ {y ye},
      (t.modifyElement id (Tree.addField name case isLeaf c)).element? y = some ye →
      ∃ ye₀, t.element? y = some ye₀ ∧ ye.case = ye₀.case := by
    intro y ye hy
    obtain ⟨ye₀, hye₀, hcore, -⟩ := addField_cases hy
    exact ⟨ye₀, hye₀, Element.case_of_core hcore⟩
  refine ⟨Nat.le_of_eq (by simp), fun _ => rfl, fun _ hx => hcase hx, ?_⟩
  constructor
  case shape =>
    intro x xe hx
    obtain ⟨e, he, hcore, -⟩ := addField_cases hx
    rw [Element.content_of_core hcore, h.shape he]
  case root =>
    intro x xe hx hp
    obtain ⟨e, he, hcore, -⟩ := addField_cases hx
    exact h.root he (Element.parent_of_core hcore ▸ hp)
  case child =>
    intro x xe n' y hx hm
    obtain ⟨e, he, hcore, -⟩ := addField_cases hx
    obtain ⟨hylt, k, hdecl, hy⟩ := h.child he (Element.children_of_core hcore ▸ hm)
    refine ⟨by simpa using hylt, k, hdecl, fun hye => ?_⟩
    obtain ⟨ye₀, hye₀, heq⟩ := hcase hye
    rw [heq, hy hye₀]
  case entry =>
    intro x xe l key y hx hl hm
    obtain ⟨e, he, hcore, -⟩ := addField_cases hx
    obtain ⟨hylt, hentry, hy⟩ := h.entry he (Element.content_of_core hcore ▸ hl) hm
    refine ⟨by simpa using hylt, hentry, fun hye => ?_⟩
    obtain ⟨ye₀, hye₀, heq⟩ := hcase hye
    rw [heq, hy hye₀]
  case member =>
    intro x xe k m hx hk
    obtain ⟨e, he, -, ⟨rfl, rfl⟩ | ⟨-, rfl⟩⟩ := addField_cases hx
    · obtain hk | ⟨rfl, rfl⟩ := has_of_addField hk
      · exact h.member he hk
      · exact ⟨_, hm⟩
    · exact h.member he hk
  case setter =>
    intro x xe field leaf hx hf
    rw [size_slots_modifyElement]
    obtain ⟨e, he, -, ⟨rfl, rfl⟩ | ⟨-, rfl⟩⟩ := addField_cases hx
    · obtain heq | hf := mem_setters_addField hf
      · obtain ⟨rfl, rfl⟩ := Prod.mk.inj heq
        exact ⟨hlt, case, hm⟩
      · exact h.setter he hf
    · exact h.setter he hf

mutual

/-- Building makes something that stands for the node it was built for. -/
theorem follows_build : ∀ (n : Schema) {t : Tree} {node : ElementId → Schema} {spec : ElementSpec},
    t.Follows schema node → t.Awaits schema node spec n → (build n spec).Ensures t
      (fun id t' => ∃ node', t.Stands schema node n spec.case id t' node')
      fun _ t' => ∃ node', t.Extends schema node t' node'
  | .leaf type default, t, node, spec, h, ha => by
    have hstop : ∃ node', t.Extends schema node t node' := ⟨node, h.extends⟩
    rw [build, ensures_ofExcept_bind]
    refine ⟨fun _ _ => ?_, fun _ _ => hstop⟩
    refine (h.wrap (ha.congr (by simp) (by simp) (by simp)) rfl).mono
      (fun _ t' hd => ?_) fun _ t' hf => ?_
    · simpa using hd
    · rw [hf]
      exact hstop
  | .leafList type default, t, node, spec, h, ha => by
    rw [build]
    refine (h.wrap (ha.congr (by simp) (by simp) (by simp)) rfl).mono
      (fun _ t' hd => ?_) fun _ t' hf => ?_
    · simpa using hd
    · rw [hf]
      exact ⟨node, h.extends⟩
  | .container children default, t, node, spec, h, ha => by
    rw [build]
    have hawaits : t.Awaits schema node { withDefault spec default with isContainer := true }
        (.container children default) :=
      ha.congr (by simp) (by simp) (by simp)
    have hwrap := h.wrap hawaits (show Content.container = _ from rfl)
    refine (hwrap.mono (fun _ _ hd => hd) fun _ t' hf => ?_).bind fun id t₁ h₁ => ?_
    · rw [hf]
      exact ⟨node, h.extends⟩
    obtain ⟨node₁, h₁⟩ := h₁
    have hid : id.index < t₁.slots.size := by
      rw [h₁.id_eq]
      exact h₁.size_lt
    have hpop := follows_populate children id spec.registers h₁.follows hid fun child hm => by
      rw [h₁.node_id]
      exact hm
    refine Ensures.bind (I :=
      fun _ t₂ => ∃ node', t.Stands schema node (.container children default)
      spec.case id t₂ node') ?_ fun _ _ hd => hd
    rw [orRemove, ensures_tryCatch]
    refine hpop.mono (fun _ t₂ h₂ => ?_) fun err t₂ h₂ => ?_
    · obtain ⟨node₂, h₂⟩ := h₂
      refine ⟨node₂, ⟨h₁.toExtends.trans h₂, h₁.id_eq, Nat.lt_of_lt_of_le h₁.size_lt h₂.size_le, ?_,
        fun he => ?_⟩⟩
      · rw [h₂.node_eq hid, h₁.node_id]
      · obtain ⟨e₁, he₁, hcase⟩ := h₂.case_eq hid he
        rw [hcase, h₁.case_self he₁]
        simp
    · obtain ⟨node₂, h₂⟩ := h₂
      have hrm := (shrinks_removeSubtree id).ensures t₂
      refine (hrm.mono (fun _ _ hs => hs) fun _ t₃ hs => ?_).bind fun _ t₃ hs => ?_
      · exact ⟨node₂, (h₁.toExtends.trans h₂).shrinks hs⟩
      · exact ⟨node₂, (h₁.toExtends.trans h₂).shrinks hs⟩
  | .list list default, t, node, spec, h, ha => by
    rw [build]
    refine (h.wrap (ha.congr (by simp) (by simp) (by simp)) rfl).mono
      (fun _ t' hd => ?_) fun _ t' hf => ?_
    · simpa using hd
    · rw [hf]
      exact ⟨node, h.extends⟩

theorem follows_populate : ∀ (children : List (Child Schema)) (id : ElementId) (registers : Bool)
    {t : Tree} {node : ElementId → Schema}, t.Follows schema node → id.index < t.slots.size →
    (∀ child ∈ children, child ∈ (node id).children) → (populate id registers children).Ensures t
      (fun _ t' => ∃ node', t.Extends schema node t' node')
      fun _ t' => ∃ node', t.Extends schema node t' node'
  | [], id, registers, t, node, h, _, _ => by
    rw [populate]
    exact ⟨node, h.extends⟩
  | ⟨name, case, n⟩ :: rest, id, registers, t, node, h, hid, hm => by
    rw [populate]
    have ha : t.Awaits schema node { name, parent := some id, registers, case } n := by
      refine ⟨fun hp => (by cases hp), fun hp _ _ => ?_⟩
      obtain rfl := Option.some.inj hp
      exact hm _ List.mem_cons_self
    refine ((follows_build n h ha).mono (fun _ _ hd => hd) fun _ _ hf => hf).bind
      fun child t₁ h₁ => ?_
    obtain ⟨node₁, h₁⟩ := h₁
    rw [ensures_bind, ensures_update]
    refine ⟨fun _ _ => ?_, fun _ => ⟨node₁, h₁.toExtends⟩⟩
    have hdecl : ⟨name, case, node₁ child⟩ ∈ (node₁ id).children := by
      rw [h₁.node_eq hid, h₁.node_id]
      exact hm _ List.mem_cons_self
    have hchild : child.index < t₁.slots.size := by
      rw [h₁.id_eq]
      exact h₁.size_lt
    have h₂ := h₁.toExtends.trans (h₁.follows.addField n.isLeaf hchild hdecl)
    have hrest := follows_populate rest id registers h₂.follows (Nat.lt_of_lt_of_le hid h₂.size_le)
      fun c hc => by
        rw [h₁.node_eq hid]
        exact hm c (List.mem_cons_of_mem _ hc)
    refine hrest.mono (fun _ t₃ h₃ => ?_) fun _ t₃ h₃ => ?_
    · obtain ⟨node₃, h₃⟩ := h₃
      exact ⟨node₃, h₂.trans h₃⟩
    · obtain ⟨node₃, h₃⟩ := h₃
      exact ⟨node₃, h₂.trans h₃⟩

end

/-! ## Entries -/

/-- Assigning a key, or taking the entry back, takes away only. -/
theorem shrinks_tryAssignKey (entry : ElementId) (parts : List (String × String))
    (before : List (ElementId × Bool)) : Leads Shrinks (tryAssignKey entry parts before) := by
  refine (shrinks_assignKey entry parts).tryCatch fun err => ?_
  exact (shrinks_removeSubtree entry).bind fun _ => (shrinks_restoreMarks before).bind fun _ =>
    leads_throw err

/-- An entry of a list, the one put into it included, stands for what the list says of its
entries. -/
theorem Follows.entry_of_enlisted (h : t.Follows schema node) {l l' : KeyedList} {key key' : String}
    {default : Value} {y : ElementId} (hid : node id = .list l.schema default)
    (hlt : c.index < t.slots.size) (hnode : node c = .ofEntry l.schema)
    (hcase : ∀ {ce}, t.element? c = some ce → ce.case = none)
    (hx : (t.enlisted id l key c).element? x = some e) (hl : e.content = .list l')
    (hm : (key', y) ∈ l'.members) :
    y.index < t.slots.size ∧ node y = .ofEntry l'.schema ∧
    ∀ {ye}, t.element? y = some ye → ye.case = none := by
  rw [element?_enlisted] at hx
  obtain ⟨e₀, he₀, rfl | ⟨rfl, l₀, hl₀, rfl⟩⟩ := relist_cases hx
  · exact h.entry he₀ hl hm
  obtain rfl := Content.list.inj hl
  obtain heq | hm := Assoc.mem_of_mem_insert hm
  · obtain ⟨rfl, rfl⟩ := Prod.mk.inj heq
    obtain ⟨default', hlist⟩ := h.schema_eq he₀ hl₀
    have hschema : l.schema = l₀.schema := (Schema.list.inj (hid.symm.trans hlist)).1
    exact ⟨hlt, by rw [hnode, hschema]; rfl, hcase⟩
  · have hold := h.entry he₀ hl₀ hm
    exact hold

/-- Putting an entry into a list. -/
theorem Follows.enlisted (h : t.Follows schema node) {l : KeyedList} (key : String)
    {default : Value} (hid : node id = .list l.schema default) (hlt : c.index < t.slots.size)
    (hnode : node c = .ofEntry l.schema) (hcase : ∀ {ce}, t.element? c = some ce → ce.case = none) :
    t.Extends schema node (t.enlisted id l key c) node := by
  have hretains := retains_enlisted t id l key c
  have hsize := size_slots_enlisted t id l key c
  refine ⟨Nat.le_of_eq hsize.symm, fun _ => rfl, fun _ hx => ?_, ?_⟩
  · obtain ⟨e, he, hb, -⟩ := hretains hx
    exact ⟨e, he, Element.case_of_bare hb⟩
  constructor
  case shape =>
    intro x xe hx
    obtain ⟨e, he, hb, -⟩ := hretains hx
    rw [Element.content_of_bare hb, h.shape he]
  case root =>
    intro x xe hx hp
    obtain ⟨e, he, hb, -⟩ := hretains hx
    exact h.root he (Element.parent_of_bare hb ▸ hp)
  case child =>
    intro x xe name y hx hm
    obtain ⟨e, he, -, hch⟩ := hretains hx
    obtain ⟨hylt, case, hdecl, hy⟩ := h.child he (hch ▸ hm)
    refine ⟨hsize ▸ hylt, case, hdecl, fun hye => ?_⟩
    obtain ⟨ye, hye₀, hb, -⟩ := hretains hye
    rw [Element.case_of_bare hb, hy hye₀]
  case entry =>
    intro x xe l' key' y hx hl hm
    obtain ⟨hylt, hnode', hy⟩ := h.entry_of_enlisted hid hlt hnode hcase hx hl hm
    refine ⟨hsize ▸ hylt, hnode', fun hye => ?_⟩
    obtain ⟨ye, hye₀, hb, -⟩ := hretains hye
    rw [Element.case_of_bare hb, hy hye₀]
  case member =>
    intro x xe k m hx hk
    obtain ⟨e, he, hb, -⟩ := hretains hx
    exact h.member he (Element.choices_of_bare hb ▸ hk)
  case setter =>
    intro x xe field leaf hx hm
    obtain ⟨e, he, hb, -⟩ := hretains hx
    rw [hsize]
    exact h.setter he (Element.setters_of_bare hb ▸ hm)

/-- The entry of a list stands for what the list says of its entries. -/
theorem awaits_entry {l : KeyedList} (he : t.element? id = some e) (hl : e.content = .list l)
    (path : String) : t.Awaits schema node (entrySpec id e path) (.ofEntry l.schema) := by
  refine ⟨fun hp => (by cases hp), fun hp hpe hc => ?_⟩
  obtain rfl := Option.some.inj hp
  rw [Option.some.inj (he.symm.trans hpe)] at hl
  rw [hl] at hc
  cases hc

/-- Putting a new entry into its list, after something was done to it. -/
theorem Stands.enlisted {l : KeyedList} {default : Value}
    (h : t.Stands schema node (.ofEntry l.schema) none c t' node')
    (hid : node id = .list l.schema default) (hlt : id.index < t.slots.size) (hs : t'.Shrinks t'')
    (key : String) : t.Extends schema node (t''.enlisted id l key c) node' := by
  have h₂ := h.toExtends.shrinks hs
  have hc : c.index < t''.slots.size := by
    rw [hs.size, h.id_eq]
    exact h.size_lt
  refine h₂.trans (h₂.follows.enlisted key (by rw [h.node_eq hlt, hid]) hc h.node_id
    fun {ce} hce => ?_)
  obtain ⟨ce₁, hce₁, hse⟩ := hs.element hce
  rw [Element.case_of_bare hse.bare, h.case_self hce₁]

/-- Adding an entry keeps the nodes of all that was there. -/
theorem follows_addEntry (h : t.Follows schema node) (id : ElementId) (key : Option String) :
    (addEntry id key).Ensures t (fun _ t' => ∃ node', t.Extends schema node t' node')
      fun _ t' => ∃ node', t.Extends schema node t' node' := by
  refine ensures_addEntry (fun _ => ⟨node, h.extends⟩) fun {p e l key' parts path} _ he hl _ => ?_
  obtain ⟨default, hid⟩ := h.schema_eq he hl
  refine (follows_build (.ofEntry l.schema) h (awaits_entry he hl path)).mono
    (fun entry t₁ h₁ => ?_) fun _ _ hf => hf
  obtain ⟨node₁, h₁⟩ := h₁
  refine ⟨fun _ _ => ⟨node₁, h₁.toExtends⟩, fun before _ => ?_⟩
  refine ((shrinks_tryAssignKey entry _ before).ensures t₁).mono (fun _ t₂ hs => ?_)
    fun _ t₂ hs => ⟨node₁, h₁.toExtends.shrinks hs⟩
  refine ⟨fun _ => ⟨node₁, h₁.toExtends.shrinks hs⟩, fun e₂ _ => ?_⟩
  have h₃ := h₁.enlisted hid (index_lt_of_element? he) hs key'
  refine ((shrinks_commit p).ensures _).mono (fun _ t₄ hs' => ?_) fun _ t₄ hs' => ?_
  · exact ⟨node₁, h₃.shrinks hs'⟩
  · exact ⟨node₁, h₃.shrinks hs'⟩

/-- A tree follows its schema after an entry was deleted. -/
theorem follows_delete (hs : Sound t ∅) (h : t.Follows schema node) (id : ElementId)
    (key : String) :
    (delete id key).Ensures t (fun _ t' => t'.Follows schema node) fun _ t' =>
      t'.Follows schema node := by
  refine ensures_delete (fun _ => h) fun {e} he => ?_
  have h₁ : (t.tell (.deleting e.path key)).Follows schema node := h.of_slots rfl
  refine ⟨fun _ => h₁, fun {p l entry rest} _ hl htake => ?_⟩
  obtain ⟨hschema, hperm⟩ := KeyedList.perm_of_take (hs.keys he hl) htake
  have hsub : rest.members.Subperm l.members :=
    (List.sublist_cons_self _ _).subperm.trans hperm.symm.subperm
  have h₂ := h₁.shrinks (shrinks_withList (t := t.tell (.deleting e.path key)) he hl hschema hsub)
  refine ((shrinks_removeSubtree entry).ensures _).mono (fun _ t₃ hs₃ => ?_) fun _ t₃ hs₃ =>
    h₂.shrinks hs₃
  refine ((shrinks_commit p).ensures t₃).mono (fun _ t₄ hs₄ => ?_) fun _ t₄ hs₄ =>
    (h₂.shrinks hs₃).shrinks hs₄
  exact ((h₂.shrinks hs₃).shrinks hs₄).of_slots rfl

/-! ## Sessions -/

/-- Assigning and editing keep to the schema. -/
theorem frameStable_follows (schema : Schema) (node : ElementId → Schema) :
    FrameStable (Follows · schema node) fun _ => True where
  plan := fun _ _ _ _ => trivial
  unset := fun {hook} _ t h => h.shrinks (shrinks_runUnset hook t)
  same := fun hs h => h.shrinks hs.shrinks

/-- A tree with a sound structure that follows a schema. -/
def Schematic (t : Tree) (schema : Schema) : Prop := Sound t ∅ ∧ ∃ node, t.Follows schema node

/-- Handling a tree keeps to its schema. -/
theorem schematic_after {op : Operation} (h : t.Schematic schema) (hop : t.Handling op) :
    (op.after t).Schematic schema := by
  obtain ⟨hs, node, h⟩ := h
  have hframe := frameStable_follows schema node
  refine ⟨sound_after hs (by cases op <;> first | exact hop.elim | trivial), ?_⟩
  cases op with
  | set id active => exact ⟨node, hframe.assignStable.set id active t h⟩
  | setLeaf id raw => exact ⟨node, hframe.assignStable.setLeaf id raw t h⟩
  | editItem id edit => exact ⟨node, hframe.editItem id edit t h⟩
  | extend id raws => exact ⟨node, hframe.extend id raws t h⟩
  | unset id => exact ⟨node, h.shrinks (shrinks_unset id t)⟩
  | removeSubtree id => exact ⟨node, h.shrinks (shrinks_removeSubtree id t)⟩
  | add id key =>
    have hadd : Leads (Keeping fun t => ∃ node, t.Follows schema node) (add id key) := by
      refine leads_add (fun event hI => ?_) (leads_keeping_iff.2 fun t hI => ?_)
      · obtain ⟨node, h⟩ := hI
        exact ⟨node, h.of_slots rfl⟩
      · obtain ⟨node, h⟩ := hI
        refine (follows_addEntry h id key).mono (fun _ t' hd => ?_) fun _ t' hf => ?_
        · obtain ⟨node', hd⟩ := hd
          exact ⟨node', hd.follows⟩
        · obtain ⟨node', hf⟩ := hf
          exact ⟨node', hf.follows⟩
    exact hadd t ⟨node, h⟩
  | delete id key =>
    exact ⟨node, rel_of_ensures (R := fun _ t' => t'.Follows schema node)
      (follows_delete hs h id key)⟩
  | _ => exact hop.elim

/-- Whatever is made of the tree of a schema follows it. -/
theorem schematic_of_evolves {schema : Blueprint} (hroot : spec.parent = none)
    (h : Evolves schema spec t) : t.Schematic schema := by
  refine h.keeps (fun _ _ hI hop => schematic_after hI hop) ⟨?_, ?_⟩
  · have hplace : ({} : Tree).HasPlace spec := .inl hroot
    have hregular : ({} : Tree).Regular (.instantiate schema spec) := hplace
    exact sound_after sound_empty hregular
  · refine rel_of_ensures (R := fun _ t' => ∃ node, t'.Follows schema node)
      (x := instantiate schema spec) ?_
    rw [instantiate, ensures_changing_bind]
    have htold : (tell {} (.instantiating spec.name)).Follows schema (fun _ => schema) :=
      (follows_empty schema _).of_slots rfl
    have ha : (tell {} (.instantiating spec.name)).Awaits schema (fun _ => schema) spec schema := by
      refine ⟨fun _ => rfl, fun hp => ?_⟩
      rw [hroot] at hp
      cases hp
    refine ((follows_build schema htold ha).mono (fun _ _ hd => hd) fun _ t' hf => ?_).bind
      fun id t₁ h₁ => ?_
    · obtain ⟨node', hf⟩ := hf
      exact ⟨node', hf.follows⟩
    obtain ⟨node₁, h₁⟩ := h₁
    have hstop : ∃ node, t₁.Follows schema node := ⟨node₁, h₁.follows⟩
    rw [ensures_reading_bind]
    refine ⟨fun _ _ => ?_, fun _ _ => hstop⟩
    rw [ensures_get_bind]
    refine ⟨fun e _ => ?_, fun _ => hstop⟩
    rw [ensures_changing_bind]
    exact ⟨node₁, h₁.follows.of_slots rfl⟩

end Tree

end DataTree
