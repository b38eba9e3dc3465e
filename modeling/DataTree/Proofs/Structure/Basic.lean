import DataTree.Proofs.Frame
import DataTree.Tree.KeyedList
import Mathlib.Data.Set.Insert
import Mathlib.Order.BooleanAlgebra.Set
import Mathlib.Logic.Relation

/-!
# DataTree.Proofs.Structure.Basic

The structure of a tree: who is above whom.

An element knows its parent, and containers and lists know what is below them.
`Sound t pending` says that both views agree, that parents are older than their
children, and that the hooks of a container lead to its own children.  The
elements of `pending` are on their way into a list or out of one: they have a
parent, but nothing lists them, and their parent may be gone.  Between operations
nothing is pending.
-/

namespace DataTree

/-- The path of an entry: that of its list, followed by the predicate made of the
parts of its key. -/
def KeyedList.IsEntryPath (l : KeyedList) (path key entryPath : String) : Prop :=
  if l.schema.key.isKeyless then entryPath = path
  else ∃ parts, l.schema.key.split path key = .ok parts ∧
    entryPath = path ++ l.schema.key.predicate parts

namespace Tree

/-! ## The invariant -/

/-- The element of `id` has `c` as a child or as an entry. -/
def Above (t : Tree) (id c : ElementId) : Prop := ∃ e, t.element? id = some e ∧ c ∈ e.below

/-- What is reached from `id` by going down. -/
def Under (t : Tree) : ElementId → ElementId → Prop := Relation.ReflTransGen t.Above

/-- Slot `c` is, or was, taken by the child of `id` that has the name of the field. -/
def IsField (t : Tree) (id : ElementId) (field : String) (c : ElementId) : Prop :=
  c.index < t.slots.size ∧ ∀ ce, t.element? c = some ce → ce.parent = some id ∧ ce.name = field

/-- What elements know of themselves and of their own fields. -/
structure Wired (t : Tree) : Prop where
  id_eq : ∀ {id e}, t.element? id = some e → e.id = id
  parent_lt : ∀ {id e p}, t.element? id = some e → e.parent = some p → p.index < id.index
  distinct : ∀ {id e l}, t.element? id = some e → e.content = .list l →
    Schema.DistinctChildren l.schema.entry
  /-- Assignments to a field go to the container's own child. -/
  setter : ∀ {id e field leaf}, t.element? id = some e → (field, leaf) ∈ e.setters →
    t.IsField id field leaf
  /-- So do the hooks that unset a field. -/
  unsetter : ∀ {id e field hook}, t.element? id = some e → (field, hook) ∈ e.unsetters →
    ∃ c, hook = .contents c ∧ t.IsField id field c

/-- The structure of a tree is sound, but for the elements of `pending`, which
nothing lists. -/
structure Sound (t : Tree) (pending : Set ElementId) : Prop extends Wired t where
  live : t.live = t.ids.length
  child : ∀ {id e name c}, t.element? id = some e → (name, c) ∈ e.children →
    e.content = .container ∧ c ∉ pending ∧ ∃ ce, t.element? c = some ce ∧
      ce.parent = some id ∧ ce.name = name ∧ ce.path = Path.child e.path name
  names : ∀ {id e}, t.element? id = some e → (Assoc.keys e.children).Nodup
  entry : ∀ {id e l key c}, t.element? id = some e → e.content = .list l →
    (key, c) ∈ l.members → c ∉ pending ∧ ∃ ce, t.element? c = some ce ∧
      ce.content = .container ∧ ce.parent = some id ∧ l.IsEntryPath e.path key ce.path
  keys : ∀ {id e l}, t.element? id = some e → e.content = .list l → l.keys.Nodup
  entries : ∀ {id e l}, t.element? id = some e → e.content = .list l → l.entries.Nodup
  madeKeys : ∀ {id e l key}, t.element? id = some e → e.content = .list l →
    l.schema.key.isKeyless = true → key ∈ l.keys → ∃ n < t.madeKeys, key = madeKey n
  listed : ∀ {id e p}, t.element? id = some e → e.parent = some p → id ∉ pending → t.Above p id
  pending : ∀ {id}, id ∈ pending → ∃ e p, t.element? id = some e ∧ e.parent = some p

/-- The tree without elements. -/
theorem sound_empty : Sound {} ∅ := by
  have hnone : ∀ id, ({} : Tree).element? id = none := fun id => by simp [element?]
  refine ⟨⟨?_, ?_, ?_, ?_, ?_⟩, rfl, ?_, ?_, ?_, ?_, ?_, ?_, ?_, ?_⟩ <;> simp [hnone]

namespace Sound

variable {t t' : Tree} {pending : Set ElementId} {id c x : ElementId} {e : Element}

/-- What is below an element is there, and has it as its parent. -/
theorem of_mem_below (h : Sound t pending) (he : t.element? id = some e) (hc : c ∈ e.below) :
    c ∉ pending ∧ ∃ ce, t.element? c = some ce ∧ ce.parent = some id := by
  obtain hc | hc := List.mem_append.1 hc
  · obtain ⟨⟨name, c⟩, hm, rfl⟩ := List.mem_map.1 hc
    obtain ⟨-, hp, ce, hce, hpar, -⟩ := h.child he hm
    exact ⟨hp, ce, hce, hpar⟩
  · cases hl : e.content with
    | list l =>
      rw [hl] at hc
      obtain ⟨⟨key, c⟩, hm, rfl⟩ := List.mem_map.1 hc
      obtain ⟨hp, ce, hce, -, hpar, -⟩ := h.entry he hl hm
      exact ⟨hp, ce, hce, hpar⟩
    | _ => simp [hl, Content.entries] at hc

/-- What is listed is there, is younger, and has the one that lists it as its parent. -/
theorem of_above (h : Sound t pending) (ha : t.Above id c) :
    c ∉ pending ∧ id.index < c.index ∧ ∃ ce, t.element? c = some ce ∧ ce.parent = some id := by
  obtain ⟨e, he, hc⟩ := ha
  obtain ⟨hp, ce, hce, hpar⟩ := h.of_mem_below he hc
  exact ⟨hp, h.parent_lt hce hpar, ce, hce, hpar⟩

/-- What is under an element is no older. -/
theorem index_le_of_under (h : Sound t pending) (hu : t.Under id x) : id.index ≤ x.index := by
  induction hu with
  | refl => exact Nat.le_refl _
  | tail _ ha ih => exact Nat.le_of_lt (Nat.lt_of_le_of_lt ih (h.of_above ha).2.1)

/-- An element under another one, and not this one itself, has its parent there. -/
theorem parent_of_under (h : Sound t pending) (hu : t.Under id x) (hne : x ≠ id) :
    ∃ e p, t.element? x = some e ∧ e.parent = some p ∧ t.Under id p ∧ t.Above p x := by
  obtain rfl | ⟨p, hp, ha⟩ := Relation.ReflTransGen.cases_tail_iff _ _ _ |>.1 hu
  · exact absurd rfl hne
  · obtain ⟨-, -, e, he, hpar⟩ := h.of_above ha
    exact ⟨e, p, he, hpar, hp, ha⟩

/-- What is listed by an element under another one is under it too. -/
theorem under_of_parent (h : Sound t pending) (he : t.element? x = some e) {p : ElementId}
    (hp : e.parent = some p) (hx : x ∉ pending) (hu : t.Under id p) : t.Under id x :=
  hu.tail (h.listed he hp hx)

end Sound

/-! ## Losing elements and links -/

end Tree

/-- Below an element are its children and its entries. -/
theorem Element.below_eq (e : Element) :
    e.below = e.children.map Prod.snd ++ e.content.links.map Prod.snd := by
  rw [Element.below, Content.entries_eq_links]

/-- What is below an element is a child or an entry of it. -/
theorem Element.mem_below {e : Element} {c : ElementId} (h : c ∈ e.below) :
    (∃ name, (name, c) ∈ e.children) ∨ ∃ l key, e.content = .list l ∧ (key, c) ∈ l.members := by
  obtain h | h := List.mem_append.1 h
  · obtain ⟨⟨name, c⟩, hm, rfl⟩ := List.mem_map.1 h
    exact .inl ⟨name, hm⟩
  · cases hl : e.content with
    | list l =>
      rw [hl] at h
      obtain ⟨⟨key, c⟩, hm, rfl⟩ := List.mem_map.1 h
      exact .inr ⟨l, key, rfl, hm⟩
    | _ => simp [hl, Content.entries] at h

theorem Element.mem_below_of_child {e : Element} {name : String} {c : ElementId}
    (hm : (name, c) ∈ e.children) : c ∈ e.below := List.mem_append_left _ (List.mem_map_of_mem hm)

theorem Element.mem_below_of_entry {e : Element} {l : KeyedList} {key : String} {c : ElementId}
    (hl : e.content = .list l) (hm : (key, c) ∈ l.members) : c ∈ e.below := by
  rw [Element.below, hl]
  exact List.mem_append_right _ (List.mem_map_of_mem hm)

/-- What holds a list later held one of the same schema before. -/
theorem Element.Shrinks.list {e e' : Element} {l' : KeyedList} (h : e.Shrinks e')
    (hl : e'.content = .list l') :
    ∃ members, e.content = .list { l' with members } ∧ l'.members.Subperm members := by
  have hb : e.content.bare = (Content.list l').bare := by
    rw [← hl]
    exact (Element.content_of_bare h.bare).symm
  have hc := Content.eq_list_of_bare hb
  refine ⟨_, hc, ?_⟩
  have hlinks := h.links
  rw [hl] at hlinks
  exact hlinks

theorem Element.Shrinks.container {e e' : Element} (h : e.Shrinks e') :
    e'.content = .container ↔ e.content = .container := by
  have hb := Element.content_of_bare h.bare
  constructor <;> intro hc <;> refine Content.eq_container_of_bare ?_
  · rw [← hb, hc]; rfl
  · rw [hb, hc]; rfl

/-- Fewer links have fewer values, and those that differed differ still. -/
theorem Element.nodup_map_of_subperm {α β : Type} {as bs : List α} (h : as.Subperm bs) (f : α → β)
    (hn : (bs.map f).Nodup) : (as.map f).Nodup := by
  obtain ⟨cs, hp, hs⟩ := h
  exact (hp.map f).nodup_iff.1 ((hs.map f).nodup hn)

namespace Tree

variable {t t' : Tree} {pending pending' : Set ElementId}

/-- The fields of elements do not depend on links. -/
theorem Wired.of_bare (h : Wired t) (hsize : t'.slots.size = t.slots.size)
    (hb : ∀ {id e'}, t'.element? id = some e' → ∃ e, t.element? id = some e ∧ e'.bare = e.bare) :
    Wired t' := by
  have hfield : ∀ {id field c}, t.IsField id field c → t'.IsField id field c := by
    intro id field c hf
    refine ⟨by rw [hsize]; exact hf.1, fun ce' hce' => ?_⟩
    obtain ⟨ce, hce, hbce⟩ := hb hce'
    rw [Element.parent_of_bare hbce, Element.name_of_bare hbce]
    exact hf.2 ce hce
  constructor
  case id_eq =>
    intro id e' he'
    obtain ⟨e, he, hbe⟩ := hb he'
    rw [Element.id_of_bare hbe, h.id_eq he]
  case parent_lt =>
    intro id e' p he' hp
    obtain ⟨e, he, hbe⟩ := hb he'
    exact h.parent_lt he (Element.parent_of_bare hbe ▸ hp)
  case distinct =>
    intro id e' l' he' hl
    obtain ⟨e, he, hbe⟩ := hb he'
    have hc : e.content.bare = (Content.list l').bare := by
      rw [← hl]
      exact (Element.content_of_bare hbe).symm
    have hd := h.distinct he (Content.eq_list_of_bare hc)
    exact hd
  case setter =>
    intro id e' field leaf he' hm
    obtain ⟨e, he, hbe⟩ := hb he'
    exact hfield (h.setter he (Element.setters_of_bare hbe ▸ hm))
  case unsetter =>
    intro id e' field hook he' hm
    obtain ⟨e, he, hbe⟩ := hb he'
    obtain ⟨c, hc, hf⟩ := h.unsetter he (Element.unsetters_of_bare hbe ▸ hm)
    exact ⟨c, hc, hfield hf⟩

/-- Elements and links may go as long as what is still listed is still there, and
what is no longer listed is pending or gone. -/
theorem Sound.shrinks (h : Sound t pending) (hs : t.Shrinks t') (hlive : t'.live = t'.ids.length)
    (below : ∀ {id c}, t'.Above id c → c ∉ pending' ∧ ∃ ce, t'.element? c = some ce)
    (listed : ∀ {id e p}, t'.element? id = some e → e.parent = some p → id ∉ pending' →
      id ∉ pending ∧ (t.Above p id → t'.Above p id))
    (hpending : ∀ {id}, id ∈ pending' → ∃ e p, t'.element? id = some e ∧ e.parent = some p) :
    Sound t' pending' := by
  constructor
  case toWired =>
    refine h.toWired.of_bare hs.size fun he' => ?_
    obtain ⟨e, he, hse⟩ := hs.element he'
    exact ⟨e, he, hse.bare⟩
  case live => exact hlive
  case pending => exact hpending
  case child =>
    intro id e' name c he' hm
    obtain ⟨e, he, hse⟩ := hs.element he'
    obtain ⟨hcont, -, ce, hce, hpar, hname, hpath⟩ := h.child he (hse.children.subset hm)
    obtain ⟨hp, ce', hce'⟩ := below ⟨e', he', Element.mem_below_of_child hm⟩
    obtain ⟨ce₂, hce₂, hsce⟩ := hs.element hce'
    obtain rfl : ce = ce₂ := Option.some.inj (hce.symm.trans hce₂)
    refine ⟨hse.container.2 hcont, hp, ce', hce', ?_, ?_, ?_⟩
    · rw [Element.parent_of_bare hsce.bare, hpar]
    · rw [Element.name_of_bare hsce.bare, hname]
    · rw [Element.path_of_bare hsce.bare, Element.path_of_bare hse.bare, hpath]
  case names =>
    intro id e' he'
    obtain ⟨e, he, hse⟩ := hs.element he'
    exact (hse.children.map Prod.fst).nodup (h.names he)
  case entry =>
    intro id e' l' key c he' hl hm
    obtain ⟨e, he, hse⟩ := hs.element he'
    obtain ⟨members, hc, hsub⟩ := hse.list hl
    obtain ⟨-, ce, hce, hcont, hpar, hpath⟩ := h.entry he hc (hsub.subset hm)
    obtain ⟨hp, ce', hce'⟩ := below ⟨e', he', Element.mem_below_of_entry hl hm⟩
    obtain ⟨ce₂, hce₂, hsce⟩ := hs.element hce'
    obtain rfl : ce = ce₂ := Option.some.inj (hce.symm.trans hce₂)
    refine ⟨hp, ce', hce', hsce.container.2 hcont, ?_, ?_⟩
    · rw [Element.parent_of_bare hsce.bare, hpar]
    · rw [Element.path_of_bare hsce.bare, Element.path_of_bare hse.bare]
      exact hpath
  case keys =>
    intro id e' l' he' hl
    obtain ⟨e, he, hse⟩ := hs.element he'
    obtain ⟨members, hc, hsub⟩ := hse.list hl
    exact Element.nodup_map_of_subperm hsub Prod.fst (h.keys he hc)
  case entries =>
    intro id e' l' he' hl
    obtain ⟨e, he, hse⟩ := hs.element he'
    obtain ⟨members, hc, hsub⟩ := hse.list hl
    exact Element.nodup_map_of_subperm hsub Prod.snd (h.entries he hc)
  case madeKeys =>
    intro id e' l' key he' hl hk hm
    obtain ⟨e, he, hse⟩ := hs.element he'
    obtain ⟨members, hc, hsub⟩ := hse.list hl
    rw [hs.madeKeys]
    exact h.madeKeys he hc hk (List.map_subset Prod.fst hsub.subset hm)
  case listed =>
    intro id e' p he' hp hpend
    obtain ⟨e, he, hse⟩ := hs.element he'
    obtain ⟨hnot, hto⟩ := listed he' hp hpend
    exact hto (h.listed he (Element.parent_of_bare hse.bare ▸ hp) hnot)

/-! ## Frames and structure -/

/-- Links stay where frames do. -/
theorem SameFrame.above (h : t.SameFrame t') {id c : ElementId} (ha : t'.Above id c) :
    t.Above id c := by
  obtain ⟨e', he', hc⟩ := ha
  obtain ⟨e, he, hf⟩ := h.element? he'
  obtain ⟨-, hchildren, hlinks⟩ := Element.frame_eq_iff.1 hf
  refine ⟨e, he, ?_⟩
  rw [Element.below_eq] at hc ⊢
  rw [← hchildren, ← hlinks]
  exact hc

/-- The structure of a tree does not depend on data and marks. -/
theorem Sound.sameFrame (h : Sound t pending) (hs : t.SameFrame t') : Sound t' pending := by
  have forward : ∀ {id e}, t.element? id = some e →
      ∃ e', t'.element? id = some e' ∧ e'.bare = e.bare := by
    intro id e he
    obtain ⟨e', he', hf⟩ := hs.symm.element? he
    exact ⟨e', he', (Element.frame_eq_iff.1 hf).1.symm⟩
  refine h.shrinks hs.shrinks ?_ ?_ ?_ ?_
  · rw [hs.live, h.live, length_ids_congr hs.isSome]
  · intro id c ha
    obtain ⟨hp, -, ce, hce, -⟩ := h.of_above (hs.above ha)
    obtain ⟨ce', hce', -⟩ := forward hce
    exact ⟨hp, ce', hce'⟩
  · intro id e' p _ _ hp
    exact ⟨hp, hs.symm.above⟩
  · intro id hid
    obtain ⟨e, p, he, hp⟩ := h.pending hid
    obtain ⟨e', he', hb⟩ := forward he
    exact ⟨e', p, he', by rw [Element.parent_of_bare hb, hp]⟩

end Tree

end DataTree
