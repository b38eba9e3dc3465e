import DataTree.Proofs.Building
import DataTree.Proofs.Structure.Basic
import DataTree.Proofs.Tables

/-!
# DataTree.Proofs.Structure.Growth

Adding to a tree whose structure is sound: a new element, a link to it, a hook.

A new element with a parent is pending until its parent links to it.  A container
links to a new child at once, a list to its new entry when that is complete.
-/

namespace DataTree

open Edit Outcome

namespace Tree

variable {t t' : Tree} {pending : Set ElementId} {id c x : ElementId} {e ce : Element}

/-! ## A new element -/

/-- An element as it is made: nothing is below it, and it has no fields yet. -/
structure IsNew (t : Tree) (e : Element) : Prop where
  id : e.id = ⟨t.slots.size⟩
  parent : ∀ {p}, e.parent = some p → ∃ pe, t.element? p = some pe
  children : e.children = []
  links : e.content.links = []
  setters : e.setters = []
  unsetters : e.unsetters = []
  distinct : ∀ {l}, e.content = .list l → Schema.DistinctChildren l.schema.entry

/-- A field is still one when an element was made. -/
theorem IsField.place {field : String} (h : t.IsField id field c) (e : Element) :
    (t.place e).IsField id field c := by
  have hlt := h.1
  refine ⟨by simp; omega, fun ce hce => h.2 ce ?_⟩
  rw [element?_place, if_neg fun hc => ?_] at hce
  · exact hce
  · subst hc
    simp at hlt

/-- Hooks lead to fields still when an element was made. -/
theorem Wired.place (h : Wired t) (he : t.IsNew e) : Wired (t.place e) := by
  constructor
  case id_eq =>
    intro x xe hx
    obtain ⟨rfl, rfl⟩ | hx := place_cases hx
    · exact he.id
    · exact h.id_eq hx
  case parent_lt =>
    intro x xe p hx hp
    obtain ⟨rfl, rfl⟩ | hx := place_cases hx
    · obtain ⟨pe, hpe⟩ := he.parent hp
      exact index_lt_of_element? hpe
    · exact h.parent_lt hx hp
  case distinct =>
    intro x xe l hx hl
    obtain ⟨rfl, rfl⟩ | hx := place_cases hx
    · exact he.distinct hl
    · exact h.distinct hx hl
  case setter =>
    intro x xe field leaf hx hm
    obtain ⟨rfl, rfl⟩ | hx := place_cases hx
    · rw [he.setters] at hm
      cases hm
    · exact (h.setter hx hm).place e
  case unsetter =>
    intro x xe field hook hx hm
    obtain ⟨rfl, rfl⟩ | hx := place_cases hx
    · rw [he.unsetters] at hm
      cases hm
    · obtain ⟨c, hc, hf⟩ := h.unsetter hx hm
      exact ⟨c, hc, hf.place e⟩

/-- A new element with a parent is pending. -/
theorem Sound.place (h : Sound t pending) (he : t.IsNew e) :
    Sound (t.place e) (pending ∪ { x | x = ⟨t.slots.size⟩ ∧ e.parent ≠ none }) := by
  have hnone : t.element? ⟨t.slots.size⟩ = none := element?_eq_none_of_size_le (Nat.le_refl _)
  have hself : (t.place e).element? ⟨t.slots.size⟩ = some e := by rw [element?_place, if_pos rfl]
  have hold : ∀ {x xe}, t.element? x = some xe → (t.place e).element? x = some xe := by
    intro x xe hx
    rw [element?_place, if_neg fun hxe => ?_, hx]
    rw [hxe, hnone] at hx
    cases hx
  have hkeep : ∀ {x xe}, t.element? x = some xe → x ∉ pending →
      x ∉ pending ∪ { x | x = ⟨t.slots.size⟩ ∧ e.parent ≠ none } := by
    intro x xe hx hp hm
    obtain hm | ⟨rfl, -⟩ := hm
    · exact hp hm
    · rw [hnone] at hx
      cases hx
  have hlist : ∀ {l : KeyedList}, e.content = .list l → l.members = [] := by
    intro l hl
    have hlinks := he.links
    rw [hl] at hlinks
    exact hlinks
  constructor
  case toWired => exact h.toWired.place he
  case live =>
    rw [live_place, h.live, length_ids_of_added hnone (t.element?_place e)]
  case child =>
    intro x xe name c hx hm
    obtain ⟨rfl, rfl⟩ | hx := place_cases hx
    · rw [he.children] at hm
      cases hm
    · obtain ⟨hc, hp, ce, hce, hrest⟩ := h.child hx hm
      exact ⟨hc, hkeep hce hp, ce, hold hce, hrest⟩
  case names =>
    intro x xe hx
    obtain ⟨rfl, rfl⟩ | hx := place_cases hx
    · rw [he.children]
      exact List.nodup_nil
    · exact h.names hx
  case entry =>
    intro x xe l key c hx hl hm
    obtain ⟨rfl, rfl⟩ | hx := place_cases hx
    · rw [hlist hl] at hm
      cases hm
    · obtain ⟨hp, ce, hce, hrest⟩ := h.entry hx hl hm
      exact ⟨hkeep hce hp, ce, hold hce, hrest⟩
  case keys =>
    intro x xe l hx hl
    obtain ⟨rfl, rfl⟩ | hx := place_cases hx
    · rw [KeyedList.keys, hlist hl]
      exact List.nodup_nil
    · exact h.keys hx hl
  case entries =>
    intro x xe l hx hl
    obtain ⟨rfl, rfl⟩ | hx := place_cases hx
    · rw [KeyedList.entries, hlist hl]
      exact List.nodup_nil
    · exact h.entries hx hl
  case madeKeys =>
    intro x xe l key hx hl hk hm
    rw [madeKeys_place]
    obtain ⟨rfl, rfl⟩ | hx := place_cases hx
    · rw [KeyedList.keys, hlist hl] at hm
      cases hm
    · exact h.madeKeys hx hl hk hm
  case listed =>
    intro x xe p hx hp hpend
    obtain ⟨rfl, rfl⟩ | hx := place_cases hx
    · exact absurd (.inr ⟨rfl, by simp [hp]⟩) hpend
    · obtain ⟨pe, hpe, hxp⟩ := h.listed hx hp fun hm => hpend (.inl hm)
      exact ⟨pe, hold hpe, hxp⟩
  case pending =>
    intro x hm
    obtain hm | ⟨rfl, hp⟩ := hm
    · obtain ⟨xe, p, hxe, hp⟩ := h.pending hm
      exact ⟨xe, p, hold hxe, hp⟩
    · obtain ⟨p, hp⟩ := Option.ne_none_iff_exists'.1 hp
      exact ⟨e, p, hself, hp⟩

/-! ## A new link -/

/-- What a link from `p` to `c` has to be like. -/
structure Links (t : Tree) (p c : ElementId) (pe pe' ce : Element) : Prop where
  bare : pe'.bare = pe.bare
  below : ∀ x, x ∈ pe'.below ↔ x ∈ pe.below ∨ x = c
  children : ∀ {name x}, (name, x) ∈ pe'.children → (name, x) ∈ pe.children ∨
    (x = c ∧ pe.content = .container ∧ ce.name = name ∧ ce.path = Path.child pe.path name)
  names : (Assoc.keys pe'.children).Nodup
  entries : ∀ {l'}, pe'.content = .list l' →
    ∃ members, pe.content = .list { l' with members } ∧ l'.keys.Nodup ∧ l'.entries.Nodup ∧
      ∀ {key x}, (key, x) ∈ l'.members → (key, x) ∈ members ∨
        (x = c ∧ ce.content = .container ∧ l'.IsEntryPath pe.path key ce.path ∧
          (l'.schema.key.isKeyless = true → ∃ n < t.madeKeys, key = madeKey n))

namespace Links

variable {p q y : ElementId} {pe xe xe' : Element} {f : Element → Element} {l : KeyedList}
  {key name : String} (hl : t.Links p c pe (f pe) ce) (hp : t.element? p = some pe)
include hl hp

/-- But for its links every element is as it was. -/
theorem map_bare (x : ElementId) :
    ((t.modifyElement p f).element? x).map Element.bare = (t.element? x).map Element.bare := by
  refine map_element?_modifyElement fun _ e he => ?_
  obtain rfl : pe = e := Option.some.inj (hp.symm.trans he)
  exact hl.bare

/-- All elements are there still. -/
theorem exists_new (hx : t.element? x = some xe) :
    ∃ xe', (t.modifyElement p f).element? x = some xe' ∧ xe'.bare = xe.bare :=
  exists_of_map_eq (hl.map_bare hp x) hx

/-- What stands now is the linking element, or is as it was. -/
theorem cases (hx : (t.modifyElement p f).element? x = some xe') :
    ∃ xe, t.element? x = some xe ∧ xe'.bare = xe.bare ∧
      ((x = p ∧ pe = xe ∧ f pe = xe') ∨ (x ≠ p ∧ xe = xe')) := by
  obtain ⟨xe, hxe, ⟨rfl, rfl⟩ | ⟨hne, rfl⟩⟩ := modifyElement_cases hx
  · obtain rfl : pe = xe := Option.some.inj (hp.symm.trans hxe)
    exact ⟨pe, hp, hl.bare, .inl ⟨rfl, rfl, rfl⟩⟩
  · exact ⟨xe', hxe, rfl, .inr ⟨hne, rfl⟩⟩

variable (h : Sound t pending) (hc : t.element? c = some ce) (hpar : ce.parent = some p)
include h hc hpar

/-- The children of all elements are right. -/
theorem child (hx : (t.modifyElement p f).element? x = some xe') (hm : (name, y) ∈ xe'.children) :
    xe'.content = .container ∧ y ∉ pending \ {c} ∧
    ∃ ye, (t.modifyElement p f).element? y = some ye ∧
      ye.parent = some x ∧ ye.name = name ∧ ye.path = Path.child xe'.path name := by
  obtain ⟨xe, hxe, hb, hcases⟩ := hl.cases hp hx
  have hold : xe.content = .container ∧ y ∉ pending \ {c} ∧ ∃ ye, t.element? y = some ye ∧
      ye.parent = some x ∧ ye.name = name ∧ ye.path = Path.child xe.path name := by
    obtain ⟨rfl, rfl, rfl⟩ | ⟨-, rfl⟩ := hcases
    · obtain hm | ⟨rfl, hcont, hname, hcpath⟩ := hl.children hm
      · obtain ⟨hcont, hy, hye⟩ := h.child hp hm
        exact ⟨hcont, fun hm => hy hm.1, hye⟩
      · exact ⟨hcont, fun hm => hm.2 rfl, ce, hc, hpar, hname, hcpath⟩
    · obtain ⟨hcont, hy, hye⟩ := h.child hxe hm
      exact ⟨hcont, fun hm => hy hm.1, hye⟩
  obtain ⟨hcont, hy, ye, hye, hypar, hyname, hypath⟩ := hold
  obtain ⟨ye', hye', hby⟩ := hl.exists_new hp hye
  refine ⟨Content.eq_container_of_bare ?_, hy, ye', hye', ?_, ?_, ?_⟩
  · rw [Element.content_of_bare hb, hcont]
    rfl
  · rw [Element.parent_of_bare hby, hypar]
  · rw [Element.name_of_bare hby, hyname]
  · rw [Element.path_of_bare hby, hypath, Element.path_of_bare hb]

/-- The entries of all lists are right. -/
theorem entry (hx : (t.modifyElement p f).element? x = some xe') (hcl : xe'.content = .list l)
    (hm : (key, y) ∈ l.members) :
    y ∉ pending \ {c} ∧ ∃ ye, (t.modifyElement p f).element? y = some ye ∧ ye.content = .container ∧
      ye.parent = some x ∧ l.IsEntryPath xe'.path key ye.path := by
  obtain ⟨xe, hxe, hb, hcases⟩ := hl.cases hp hx
  have hold : y ∉ pending \ {c} ∧ ∃ ye, t.element? y = some ye ∧ ye.content = .container ∧
      ye.parent = some x ∧ l.IsEntryPath xe.path key ye.path := by
    obtain ⟨rfl, rfl, rfl⟩ | ⟨-, rfl⟩ := hcases
    · obtain ⟨members, hpl, -, -, hmem⟩ := hl.entries hcl
      obtain hm | ⟨rfl, hcont, hcpath, -⟩ := hmem hm
      · obtain ⟨hy, hye⟩ := h.entry hp hpl hm
        exact ⟨fun hm => hy hm.1, hye⟩
      · exact ⟨fun hm => hm.2 rfl, ce, hc, hcont, hpar, hcpath⟩
    · obtain ⟨hy, hye⟩ := h.entry hxe hcl hm
      exact ⟨fun hm => hy hm.1, hye⟩
  obtain ⟨hy, ye, hye, hycont, hypar, hypath⟩ := hold
  obtain ⟨ye', hye', hby⟩ := hl.exists_new hp hye
  refine ⟨hy, ye', hye', Content.eq_container_of_bare ?_, ?_, ?_⟩
  · rw [Element.content_of_bare hby, hycont]
    rfl
  · rw [Element.parent_of_bare hby, hypar]
  · rw [Element.path_of_bare hby, Element.path_of_bare hb]
    exact hypath

/-- All elements but the pending ones are listed by their parents. -/
theorem listed (hx : (t.modifyElement p f).element? x = some xe') (hq : xe'.parent = some q)
    (hpend : x ∉ pending \ {c}) :
    (t.modifyElement p f).Above q x := by
  obtain ⟨xe, hxe, hb, -⟩ := hl.cases hp hx
  rw [Element.parent_of_bare hb] at hq
  by_cases hxc : x = c
  · subst hxc
    obtain rfl : ce = xe := Option.some.inj (hc.symm.trans hxe)
    obtain rfl : p = q := Option.some.inj (hpar.symm.trans hq)
    exact ⟨f pe, element?_modifyElement_self hp, (hl.below x).2 (.inr rfl)⟩
  obtain ⟨qe, hqe, hxb⟩ := h.listed hxe hq fun hm => hpend ⟨hm, hxc⟩
  by_cases hqp : q = p
  · subst hqp
    obtain rfl : pe = qe := Option.some.inj (hp.symm.trans hqe)
    exact ⟨f pe, element?_modifyElement_self hp, (hl.below x).2 (.inl hxb)⟩
  · exact ⟨qe, (element?_modifyElement_of_ne hqp f).trans hqe, hxb⟩

end Links

/-- A pending element that is linked to by its parent is no longer pending. -/
theorem Sound.attach (h : Sound t pending) {p : ElementId} {pe : Element} {f : Element → Element}
    (hp : t.element? p = some pe) (hc : t.element? c = some ce) (hpar : ce.parent = some p)
    (hl : t.Links p c pe (f pe) ce) : Sound (t.modifyElement p f) (pending \ {c}) := by
  constructor
  case toWired =>
    refine h.toWired.of_bare (by simp) fun hx => ?_
    obtain ⟨xe, hxe, hb, -⟩ := hl.cases hp hx
    exact ⟨xe, hxe, hb⟩
  case live =>
    rw [live_modifyElement, h.live]
    exact (length_ids_congr fun x => isSome_element?_modifyElement t p f x).symm
  case child => exact fun hx hm => hl.child hp h hc hpar hx hm
  case names =>
    intro x xe' hx
    obtain ⟨xe, hxe, -, ⟨-, -, rfl⟩ | ⟨-, rfl⟩⟩ := hl.cases hp hx
    · exact hl.names
    · exact h.names hxe
  case entry => exact fun hx hcl hm => hl.entry hp h hc hpar hx hcl hm
  case keys =>
    intro x xe' l hx hcl
    obtain ⟨xe, hxe, -, ⟨-, -, rfl⟩ | ⟨-, rfl⟩⟩ := hl.cases hp hx
    · obtain ⟨members, -, hk, -⟩ := hl.entries hcl
      exact hk
    · exact h.keys hxe hcl
  case entries =>
    intro x xe' l hx hcl
    obtain ⟨xe, hxe, -, ⟨-, -, rfl⟩ | ⟨-, rfl⟩⟩ := hl.cases hp hx
    · obtain ⟨members, -, -, he, -⟩ := hl.entries hcl
      exact he
    · exact h.entries hxe hcl
  case madeKeys =>
    intro x xe' l key hx hcl hk hm
    obtain ⟨xe, hxe, -, ⟨-, -, rfl⟩ | ⟨-, rfl⟩⟩ := hl.cases hp hx
    · obtain ⟨members, hpl, -, -, hto⟩ := hl.entries hcl
      obtain ⟨⟨key, y⟩, hy, rfl⟩ := List.mem_map.1 hm
      obtain hm | ⟨-, -, -, hmade⟩ := hto hy
      · exact h.madeKeys hp hpl hk (Assoc.mem_keys_of_mem hm)
      · exact hmade hk
    · exact h.madeKeys hxe hcl hk hm
  case listed => exact fun hx hq hpend => hl.listed hp h hc hpar hx hq hpend
  case pending =>
    intro x hm
    obtain ⟨xe, q, hxe, hq⟩ := h.pending hm.1
    obtain ⟨xe', hxe', hb⟩ := hl.exists_new hp hxe
    exact ⟨xe', q, hxe', by rw [Element.parent_of_bare hb, hq]⟩

/-- A container links to its new child. -/
theorem Sound.gain (h : Sound t pending) {p : ElementId} {pe : Element} (name : String)
    (hp : t.element? p = some pe) (hcont : pe.content = .container)
    (hn : name ∉ Assoc.keys pe.children)
    (hc : t.element? c = some ce) (hpar : ce.parent = some p) (hname : ce.name = name)
    (hpath : ce.path = Path.child pe.path name) :
    Sound (t.modifyElement p (·.gain name c)) (pending \ {c}) := by
  have hg : pe.gain name c = { pe with children := pe.children ++ [(name, c)] } := by
    rw [Element.gain, if_pos (Content.isContainer_iff.2 hcont), Assoc.insert_eq_append hn]
  refine h.attach hp hc hpar ?_
  rw [hg]
  constructor
  case bare => rfl
  case below =>
    intro x
    simp [Element.below, hcont, Content.entries]
  case children =>
    intro n x hm
    obtain hm | hm := List.mem_append.1 hm
    · exact .inl hm
    · obtain ⟨rfl, rfl⟩ := Prod.mk.inj (List.mem_singleton.1 hm)
      exact .inr ⟨rfl, hcont, hname, hpath⟩
  case names =>
    have hk := Assoc.nodup_keys_insert (h.names hp) name c
    rw [Assoc.insert_eq_append hn] at hk
    exact hk
  case entries =>
    intro l hl
    rw [hcont] at hl
    cases hl

/-- A list links to its new entry. -/
theorem Sound.enlist (h : Sound t pending) {p : ElementId} {pe : Element} {l : KeyedList}
    {key : String} {f : Element → Element} (hp : t.element? p = some pe) (hl : pe.content = .list l)
    (hf : f pe = { pe with content := .list (l.insert key c) }) (hk : key ∉ l.keys)
    (hmade : l.schema.key.isKeyless = true → ∃ n < t.madeKeys, key = madeKey n)
    (hc : t.element? c = some ce) (hpend : c ∈ pending) (hpar : ce.parent = some p)
    (hcont : ce.content = .container) (hpath : l.IsEntryPath pe.path key ce.path) :
    Sound (t.modifyElement p f) (pending \ {c}) := by
  have hins : l.insert key c = { l with members := l.members ++ [(key, c)] } := by
    rw [KeyedList.insert, Assoc.insert_eq_append hk]
  have hnew : c ∉ l.entries := fun hm =>
    (h.of_mem_below hp (List.mem_append_right _ (by rw [hl]; exact hm))).1 hpend
  refine h.attach hp hc hpar ?_
  rw [hf, hins]
  constructor
  case bare => simp [Element.bare, Content.bare, hl]
  case below =>
    intro x
    simp [Element.below, hl, Content.entries, KeyedList.entries, or_assoc]
  case children => exact fun hm => .inl hm
  case names =>
    have hnames := h.names hp
    exact hnames
  case entries =>
    intro l' hl'
    obtain rfl := Content.list.inj hl'
    refine ⟨l.members, hl, ?_, ?_, fun {key' x} hm => ?_⟩
    · have hkeys := Assoc.nodup_keys_insert (h.keys hp hl) key c
      rw [Assoc.insert_eq_append hk] at hkeys
      exact hkeys
    · rw [KeyedList.entries, List.map_append, List.map_singleton]
      exact List.Nodup.append (h.entries hp hl) (List.nodup_singleton c)
        (List.disjoint_singleton.2 hnew)
    · obtain hm | hm := List.mem_append.1 hm
      · exact .inl hm
      · obtain ⟨rfl, rfl⟩ := Prod.mk.inj (List.mem_singleton.1 hm)
        exact .inr ⟨rfl, hcont, hpath, hmade⟩

/-! ## Hooks and made-up keys -/

/-- The structure depends on hooks and choices only as far as elements know their fields by them. -/
theorem Sound.of_core (h : Sound t pending) (hw : Wired t') (hlive : t'.live = t.live)
    (hmade : t'.madeKeys = t.madeKeys)
    (hcore : ∀ x, (t'.element? x).map Element.core = (t.element? x).map Element.core) :
    Sound t' pending := by
  have hback : ∀ {x xe'}, t'.element? x = some xe' →
      ∃ xe, t.element? x = some xe ∧ xe'.core = xe.core := by
    intro x xe' hx
    obtain ⟨xe, hxe, hc⟩ := exists_of_map_eq (hcore x).symm hx
    exact ⟨xe, hxe, hc.symm⟩
  constructor
  case toWired => exact hw
  case live =>
    rw [hlive, h.live]
    refine (length_ids_congr fun x => ?_).symm
    have hsome := congrArg Option.isSome (hcore x)
    rwa [Option.isSome_map, Option.isSome_map] at hsome
  case child =>
    intro x xe' name c hx hm
    obtain ⟨xe, hxe, hcx⟩ := hback hx
    obtain ⟨hcont, hp, ce, hce, hcpar, hcname, hcpath⟩ :=
      h.child hxe (Element.children_of_core hcx ▸ hm)
    obtain ⟨ce', hce', hc⟩ := exists_of_map_eq (hcore c) hce
    refine ⟨(Element.content_of_core hcx).trans hcont, hp, ce', hce',
      (Element.parent_of_core hc).trans hcpar, (Element.name_of_core hc).trans hcname, ?_⟩
    rw [Element.path_of_core hc, hcpath, Element.path_of_core hcx]
  case names =>
    intro x xe' hx
    obtain ⟨xe, hxe, hcx⟩ := hback hx
    rw [Element.children_of_core hcx]
    exact h.names hxe
  case entry =>
    intro x xe' l key c hx hl hm
    obtain ⟨xe, hxe, hcx⟩ := hback hx
    obtain ⟨hp, ce, hce, hcont, hcpar, hcpath⟩ := h.entry hxe (Element.content_of_core hcx ▸ hl) hm
    obtain ⟨ce', hce', hc⟩ := exists_of_map_eq (hcore c) hce
    refine ⟨hp, ce', hce', (Element.content_of_core hc).trans hcont,
      (Element.parent_of_core hc).trans hcpar, ?_⟩
    rw [Element.path_of_core hc, Element.path_of_core hcx]
    exact hcpath
  case keys =>
    intro x xe' l hx hl
    obtain ⟨xe, hxe, hcx⟩ := hback hx
    exact h.keys hxe (Element.content_of_core hcx ▸ hl)
  case entries =>
    intro x xe' l hx hl
    obtain ⟨xe, hxe, hcx⟩ := hback hx
    exact h.entries hxe (Element.content_of_core hcx ▸ hl)
  case madeKeys =>
    intro x xe' l key hx hl hk hm
    obtain ⟨xe, hxe, hcx⟩ := hback hx
    rw [hmade]
    exact h.madeKeys hxe (Element.content_of_core hcx ▸ hl) hk hm
  case listed =>
    intro x xe' p hx hp hpend
    obtain ⟨xe, hxe, hcx⟩ := hback hx
    obtain ⟨pe, hpe, hxp⟩ := h.listed hxe (Element.parent_of_core hcx ▸ hp) hpend
    obtain ⟨pe', hpe', hc⟩ := exists_of_map_eq (hcore p) hpe
    exact ⟨pe', hpe', Element.below_of_core hc ▸ hxp⟩
  case pending =>
    intro x hm
    obtain ⟨xe, p, hxe, hp⟩ := h.pending hm
    obtain ⟨xe', hxe', hc⟩ := exists_of_map_eq (hcore x) hxe
    exact ⟨xe', p, hxe', (Element.parent_of_core hc).trans hp⟩

/-- A field is still one beside a new one. -/
theorem IsField.addField {field name : String} {case : Option Case} {isLeaf : Bool}
    {child : ElementId} (h : t.IsField x field c) (id : ElementId) :
    (t.modifyElement id (addField name case isLeaf child)).IsField x field c := by
  refine ⟨by simpa using h.1, fun ce' hce' => ?_⟩
  obtain ⟨ce, hce, hcore, -⟩ := addField_cases hce'
  rw [Element.parent_of_core hcore, Element.name_of_core hcore]
  exact h.2 ce hce

/-- The hooks of a field may be set up for the child that has its name. -/
theorem Wired.addField (h : Wired t) {name : String} (case : Option Case) (isLeaf : Bool)
    {child : ElementId} (hchild : t.IsField id name child) :
    Wired (t.modifyElement id (addField name case isLeaf child)) := by
  constructor
  case id_eq =>
    intro x xe' hx
    obtain ⟨xe, hxe, hc, -⟩ := addField_cases hx
    rw [Element.id_of_core hc, h.id_eq hxe]
  case parent_lt =>
    intro x xe' p hx hp
    obtain ⟨xe, hxe, hc, -⟩ := addField_cases hx
    exact h.parent_lt hxe (Element.parent_of_core hc ▸ hp)
  case distinct =>
    intro x xe' l hx hl
    obtain ⟨xe, hxe, hc, -⟩ := addField_cases hx
    exact h.distinct hxe (Element.content_of_core hc ▸ hl)
  case setter =>
    intro x xe' field leaf hx hm
    obtain ⟨xe, hxe, -, ⟨rfl, rfl⟩ | ⟨-, rfl⟩⟩ := addField_cases hx
    · obtain heq | hm := mem_setters_addField hm
      · obtain ⟨rfl, rfl⟩ := Prod.mk.inj heq
        exact hchild.addField x
      · exact (h.setter hxe hm).addField x
    · exact (h.setter hxe hm).addField id
  case unsetter =>
    intro x xe' field hook hx hm
    obtain ⟨xe, hxe, -, ⟨rfl, rfl⟩ | ⟨-, rfl⟩⟩ := addField_cases hx
    · obtain heq | hm := mem_unsetters_addField hm
      · obtain ⟨rfl, rfl⟩ := Prod.mk.inj heq
        exact ⟨child, rfl, hchild.addField x⟩
      · obtain ⟨c, hc, hf⟩ := h.unsetter hxe hm
        exact ⟨c, hc, hf.addField x⟩
    · obtain ⟨c, hc, hf⟩ := h.unsetter hxe hm
      exact ⟨c, hc, hf.addField id⟩

/-- So it may in a tree whose structure is sound. -/
theorem Sound.addField (h : Sound t pending) {name : String} (case : Option Case) (isLeaf : Bool)
    {child : ElementId} (hchild : t.IsField id name child) :
    Sound (t.modifyElement id (addField name case isLeaf child)) pending :=
  h.of_core (h.toWired.addField case isLeaf hchild) rfl rfl fun _ =>
    map_element?_modifyElement fun _ _ _ => core_addField ..

/-- A tree stays sound when keys were made. -/
theorem Sound.makeKeys (h : Sound t pending) {n : Nat} (hn : t.madeKeys ≤ n) :
    Sound { t with madeKeys := n } pending :=
  { h with
    madeKeys := fun he hl hk hm => by
      obtain ⟨m, hm, hkey⟩ := h.madeKeys he hl hk hm
      exact ⟨m, Nat.lt_of_lt_of_le hm hn, hkey⟩ }

end Tree

end DataTree
