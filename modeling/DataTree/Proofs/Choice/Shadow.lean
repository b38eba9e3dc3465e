import DataTree.Proofs.Choice.Basic

/-!
# DataTree.Proofs.Choice.Shadow

When the case that an element is assigned to on behalf of is the right one.

A plan carries a single case up to the root: the first one on the way.  If a member of
a case has choices of its own below it, then whatever is in these carries a case of
theirs past the outer choice.  The outer choice is *shadowed*; its other cases are not
unset.  A schema is `Unshadowed` if this does not happen in it.  Lists start afresh:
what is below a list is not assigned to before the list has got an entry, and that
assignment is one to the list.

`Arranged` and `Unshadowed` say of a tree what building it from a schema brings about.
Both only speak of what never changes, so a tree that fades keeps them.
-/

namespace DataTree

/-! ## Schemas -/

mutual

/-- The cases that are carried up to a node from what holds data within it: the first
one on the way, if there is one. -/
def Schema.nears : Schema → List (Option Case)
  | .leaf _ _ | .leafList _ _ | .list _ _ => [none]
  | .container children _ => Schema.nearsOf children

/-- The same for the children of a container. -/
def Schema.nearsOf : List (Child Schema) → List (Option Case)
  | [] => []
  | ⟨_, case, node⟩ :: rest =>
    (Schema.nears node).map (fun near => near.orElse fun _ => case) ++ Schema.nearsOf rest

end

/-- Whatever is assigned to within a member of a case, the case that arrives at the
container is a rival of every rival of the member's case. -/
def Schema.MembersUnshadowed (children : List (Child Schema)) : Prop :=
  ∀ c ∈ children, ∀ c' ∈ children, ∀ k k', c.case = some k → c'.case = some k' → k.Rivals k' →
    ∀ near ∈ c.node.nears, (near.getD k).Rivals k'

mutual

/-- No choice is shadowed by one below it. -/
def Schema.Unshadowed : Schema → Prop
  | .leaf _ _ | .leafList _ _ => True
  | .container children _ => Schema.MembersUnshadowed children ∧ Schema.AllUnshadowed children
  | .list ⟨_, entry, _⟩ _ => Schema.MembersUnshadowed entry ∧ Schema.AllUnshadowed entry

/-- The same for the nodes of several children. -/
def Schema.AllUnshadowed : List (Child Schema) → Prop
  | [] => True
  | ⟨_, _, node⟩ :: rest => Schema.Unshadowed node ∧ Schema.AllUnshadowed rest

end

/-- No choice is shadowed, for the children of a container or of an entry. -/
def Schema.UnshadowedChildren (children : List (Child Schema)) : Prop :=
  Schema.MembersUnshadowed children ∧ Schema.AllUnshadowed children

theorem Schema.unshadowed_container {children : List (Child Schema)} {default : Value} :
    (Schema.container children default).Unshadowed ↔ Schema.UnshadowedChildren children := by
  rw [Schema.Unshadowed, Schema.UnshadowedChildren]

theorem Schema.unshadowed_list {list : ListSchema Schema} {default : Value} :
    (Schema.list list default).Unshadowed ↔ Schema.UnshadowedChildren list.entry := by
  obtain ⟨key, entry, ordered⟩ := list
  rw [Schema.Unshadowed, Schema.UnshadowedChildren]

/-- What is carried up to the children is carried up to the container. -/
theorem Schema.mem_nearsOf {children : List (Child Schema)} {child : Child Schema}
    (h : child ∈ children) {near : Option Case} (hn : near ∈ child.node.nears) :
    (near.orElse fun _ => child.case) ∈ Schema.nearsOf children := by
  induction children with
  | nil => cases h
  | cons first rest ih =>
    obtain ⟨name, case, node⟩ := first
    rw [Schema.nearsOf, List.mem_append]
    obtain rfl | h := List.mem_cons.1 h
    · exact .inl (List.mem_map_of_mem hn)
    · exact .inr (ih h)

namespace Tree

variable {t t' : Tree} {pending : Set ElementId} {id b c x y : ElementId} {e : Element}

/-! ## Trees -/

/-- The way up from `x` to `c` without lists; `d` is the first case on it. -/
inductive Route (t : Tree) (x : ElementId) : ElementId → Option Case → Prop
  | here {e : Element} : t.element? x = some e → Route t x x e.case
  | up {c p : ElementId} {d : Option Case} {name : String} {pe : Element} : Route t x c d →
      t.element? p = some pe → (name, c) ∈ pe.children →
    Route t x p (d.orElse fun _ => pe.case)

/-- Wherever something is, there is a way up. -/
theorem exists_route (hx : t.element? x = some e) (h : t.Within c x) : ∃ d, t.Route x c d := by
  induction h using Relation.ReflTransGen.head_induction_on with
  | refl => exact ⟨_, .here hx⟩
  | head hc _ ih =>
    obtain ⟨pe, name, hp, hm⟩ := hc
    obtain ⟨d, hd⟩ := ih
    exact ⟨_, .up hd hp hm⟩

theorem Thins.route (h : t.Thins t') {d : Option Case} (hr : t'.Route x c d) : t.Route x c d := by
  induction hr with
  | here he' =>
    obtain ⟨e, he, hb, -⟩ := h he'
    rw [Element.case_of_bare hb]
    exact .here he
  | up _ hp' hm ih =>
    obtain ⟨p, hp, hb, hch⟩ := h hp'
    rw [Element.case_of_bare hb]
    exact .up ih hp (hch hm)

/-- How an element is arranged: with a hook for each of its children, which are members
of no case but their own. -/
structure ArrangedAt (t : Tree) (id : ElementId) : Prop where
  declared : ∀ {e}, t.element? id = some e → e.content.IsDeclared
  hooks : ∀ {e}, t.element? id = some e →
    e.unsetters = e.children.map fun m => (m.1, .contents m.2)
  member : ∀ {e name c ce k}, t.element? id = some e → (name, c) ∈ e.children →
    t.element? c = some ce → e.choices.Has k name → ce.case = some k

/-- What is assigned to within a member of a case carries a case that is a rival of every
rival of the member's case. -/
structure UnshadowedAt (t : Tree) (id : ElementId) : Prop where
  member : ∀ {e k k' m m' c b x xe d}, t.element? id = some e → e.choices.Has k m →
    e.choices.Has k' m' → k.Rivals k' → (m, c) ∈ e.children → (m', b) ∈ e.children →
    t.Route x c d → t.element? x = some xe → xe.content ≠ .container →
    ∃ near, d = some near ∧ near.Rivals k'
  entry : ∀ {e l}, t.element? id = some e → e.content = .list l →
    Schema.UnshadowedChildren l.schema.entry

/-- All elements are arranged. -/
def Arranged (t : Tree) : Prop := ∀ id, t.ArrangedAt id

/-- No element shadows a choice. -/
def Unshadowed (t : Tree) : Prop := ∀ id, t.UnshadowedAt id

theorem Arranged.declared (h : t.Arranged) : t.Declared := fun id _ he => (h id).declared he

/-- A member has one case. -/
theorem Arranged.case_unique (h : t.Arranged) (hs : Sound t pending) {m : String} {k k' : Case}
    (he : t.element? id = some e) (hm : (m, c) ∈ e.children) (hk : e.choices.Has k m)
    (hk' : e.choices.Has k' m) : k = k' := by
  obtain ⟨-, -, ce, hce, -⟩ := hs.child he hm
  have hcase := (h id).member he hm hce hk
  rw [(h id).member he hm hce hk'] at hcase
  exact (Option.some.inj hcase).symm

theorem Arranged.retains (h : t.Arranged) (hf : t.Retains t') : t'.Arranged := by
  intro id
  constructor
  case declared =>
    intro e' he'
    obtain ⟨e, he, hb, -⟩ := hf he'
    exact Content.isDeclared_of_bare (Element.content_of_bare hb) ((h id).declared he)
  case hooks =>
    intro e' he'
    obtain ⟨e, he, hb, hch⟩ := hf he'
    rw [Element.unsetters_of_bare hb, hch, (h id).hooks he]
  case member =>
    intro e' name c ce' k he' hm hce' hk
    obtain ⟨e, he, hb, hch⟩ := hf he'
    obtain ⟨ce, hce, hcb, -⟩ := hf hce'
    rw [Element.choices_of_bare hb] at hk
    rw [Element.case_of_bare hcb]
    exact (h id).member he (hch ▸ hm) hce hk

theorem Unshadowed.thins (h : t.Unshadowed) (hf : t.Thins t') : t'.Unshadowed := by
  intro id
  constructor
  case member =>
    intro e' k k' m m' c b x xe' d he' hk hk' hkk hm hm' hr hx' hcont
    obtain ⟨e, he, hb, hch⟩ := hf he'
    obtain ⟨xe, hx, hxb, -⟩ := hf hx'
    rw [Element.choices_of_bare hb] at hk hk'
    refine (h id).member he hk hk' hkk (hch hm) (hch hm') (hf.route hr) hx fun hc => hcont ?_
    refine Content.eq_container_of_bare ?_
    rw [Element.content_of_bare hxb, hc]
    rfl
  case entry =>
    intro e' l he' hl
    obtain ⟨e, he, hb, -⟩ := hf he'
    have hc : e.content.bare = (Content.list l).bare := by
      rw [← hl]
      exact (Element.content_of_bare hb).symm
    have hentry := (h id).entry he (Content.eq_list_of_bare hc)
    exact hentry

end Tree

end DataTree
