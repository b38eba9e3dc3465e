import DataTree.Proofs.Keys.Injective
import DataTree.Proofs.Links.Owned
import DataTree.Proofs.Mirror.Dangling

/-!
# DataTree.Proofs.Keys.Places

Every entry of a list has a place of its own.

An entry is registered at the path of its list with the predicate of its key, and no
key is in a list twice.  Both hold in every session, whatever fails on the way and
whatever else is made below the list (`indexed_of_reaches`), because only adding puts
entries into lists: everything else takes some away at most (`Tree.Reaps`).  So, as
different keys have different predicates, two entries of a list never share a path
(`entries_apart`).
-/

namespace DataTree

open Edit Outcome

/-! ## Losing entries -/

/-- The later element stands at the same path, is of the same kind and has lost entries at most. -/
structure Element.Reaps (e e' : Element) : Prop where
  path : e'.path = e.path
  bare : e'.content.bare = e.content.bare
  links : e'.content.links.Subperm e.content.links

namespace Element

variable {e e' e₁ e₂ e₃ : Element}

theorem Reaps.refl (e : Element) : e.Reaps e := ⟨rfl, rfl, .refl _⟩

theorem Reaps.trans (h : e₁.Reaps e₂) (h' : e₂.Reaps e₃) : e₁.Reaps e₃ :=
  ⟨h'.path.trans h.path, h'.bare.trans h.bare, h'.links.trans h.links⟩

/-- What only loses something gets no entries. -/
theorem Shrinks.reaps (h : e.Shrinks e') : e.Reaps e' :=
  ⟨path_of_bare h.bare, content_of_bare h.bare, h.links⟩

/-- The same where everything but the children and hooks is the same. -/
theorem reaps_of_trunk (h : e'.trunk = e.trunk) : e.Reaps e' := by
  have hcontent := content_of_trunk h
  exact ⟨(congrArg Element.path h :), by rw [hcontent], by rw [hcontent]⟩

/-- What has become of a list is a list of the same schema. -/
theorem Reaps.list {l : KeyedList} (h : e.Reaps e') (hl : e.content = .list l) :
    e'.content = .list { l with members := e'.content.links } :=
  Content.eq_list_of_bare (by rw [h.bare, hl])

end Element

namespace Tree

variable {t t' : Tree} {id x entry : ElementId} {e : Element} {l : KeyedList} {spec : ElementSpec}
  {content : Content} {path key : String}

/-- No list has got an entry: what is new has none, and what is old has lost some at most. -/
structure Reaps (t t' : Tree) : Prop where
  size_le : t.slots.size ≤ t'.slots.size
  element : ∀ {x e'}, t'.element? x = some e' →
    (∃ e, t.element? x = some e ∧ e.Reaps e') ∨ (t.slots.size ≤ x.index ∧ e'.content.links = [])

instance : IsPreorder Tree Reaps where
  refl _ := ⟨Nat.le_refl _, fun he => .inl ⟨_, he, .refl _⟩⟩
  trans _ _ _ h h' :=
    { size_le := Nat.le_trans h.size_le h'.size_le
      element := fun he => by
        obtain ⟨e₂, he₂, h₂⟩ | ⟨hnew, hnil⟩ := h'.element he
        · obtain ⟨e₁, he₁, h₁⟩ | ⟨hnew, hnil⟩ := h.element he₂
          · exact .inl ⟨e₁, he₁, h₁.trans h₂⟩
          · exact .inr ⟨hnew, List.subperm_nil.1 (hnil ▸ h₂.links)⟩
        · exact .inr ⟨Nat.le_trans h.size_le hnew, hnil⟩ }

theorem Shrinks.reaps (h : t.Shrinks t') : t.Reaps t' where
  size_le := Nat.le_of_eq h.size.symm
  element := fun he => by
    obtain ⟨e, he, hs⟩ := h.element he
    exact .inl ⟨e, he, hs.reaps⟩

/-- An old element is still the same. -/
theorem Reaps.older (h : t.Reaps t') (hx : x.index < t.slots.size) {e' : Element}
    (he' : t'.element? x = some e') : ∃ e, t.element? x = some e ∧ e.Reaps e' :=
  (h.element he').resolve_right fun hnew => Nat.not_lt.2 hnew.1 hx

/-- A new element has no entries. -/
theorem reaps_wrap (hlinks : content.links = []) : Leads Reaps (wrap content spec) := by
  refine leads_wrap fun t _ => ?_
  show t.Reaps (t.made content spec)
  refine ⟨by simp [made], fun {x e'} he' => ?_⟩
  obtain ⟨rfl, rfl⟩ | ⟨e, he, htrunk, -⟩ := made_cases he'
  · exact .inr ⟨Nat.le_refl _, hlinks⟩
  · exact .inl ⟨e, he, Element.reaps_of_trunk htrunk⟩

/-- A new field is no entry. -/
theorem reaps_addField (name : String) (case : Option Case) (isLeaf : Bool) (child : ElementId) :
    Leads Reaps (update id (addField name case isLeaf child)) := by
  refine leads_update fun t _ _ => ⟨by simp, fun {x e'} he' => .inl ?_⟩
  obtain ⟨e, he, -, ⟨-, rfl⟩ | ⟨-, rfl⟩⟩ := addField_cases he'
  · exact ⟨e, he, rfl, rfl, .refl _⟩
  · exact ⟨e', he, .refl e'⟩

/-- Building a schema makes lists without entries. -/
theorem buildStable_reaps (registers : Bool) :
    BuildStable Reaps registers (fun _ => True) fun _ => True where
  wrap := fun _ _ hinitial _ _ => reaps_wrap (Content.IsInitial.links hinitial)
  field := fun _ => reaps_addField _ _ _ _
  remove := fun id t => (shrinks_removeSubtree id t).reaps

/-- Building puts nothing into a list. -/
theorem reaps_build (schema : Schema) (spec : ElementSpec) : Leads Reaps (build schema spec) :=
  (buildStable_reaps spec.registers).build schema spec
    (schema.uses_of_forall (fun _ => trivial) fun _ => trivial) rfl

/-! ## Where a new entry is -/

/-- Slot `x` is, or was, taken by an element at the path. -/
def Sited (t : Tree) (x : ElementId) (path : String) : Prop :=
  x.index < t.slots.size ∧ ∀ e, t.element? x = some e → e.path = path

/-- An element stays at its path. -/
theorem Sited.reaps (h : t.Sited x path) (hr : t.Reaps t') : t'.Sited x path := by
  refine ⟨Nat.lt_of_lt_of_le h.1 hr.size_le, fun e' he' => ?_⟩
  obtain ⟨e, he, hs⟩ := hr.older h.1 he'
  rw [hs.path, h.2 e he]

/-- An element is made at the path that was asked for. -/
theorem sited_wrap (content : Content) (hpath : spec.registerPath = some path) :
    (wrap content spec).Ensures t (fun id t' => t'.Sited id path) fun _ _ => True := by
  refine (ensures_made content spec t).mono (fun id t' h => ?_) fun _ _ _ => trivial
  obtain ⟨rfl, rfl⟩ := h
  refine ⟨by simp [made], fun e he => ?_⟩
  obtain rfl : t.newElement content spec = e := Option.some.inj (element?_made_self.symm.trans he)
  show pathFor spec (t.parentPath spec) = path
  simp only [pathFor, hpath]

/-- So is a container with all that is below it. -/
theorem sited_build (children : List (Child Schema)) (default : Value)
    (hpath : spec.registerPath = some path) :
    (build (.container children default) spec).Ensures t (fun id t' => t'.Sited id path)
      fun _ _ => True := by
  have hasked : (withDefault spec default).registerPath = some path := by
    unfold withDefault
    split <;> exact hpath
  have hstable := buildStable_reaps spec.registers
  rw [build]
  refine Ensures.bind (sited_wrap _ hasked) fun id t₁ h₁ => ?_
  have hpopulate := hstable.populate id children
    (Schema.allUse_of_forall (fun _ => trivial) (fun _ => trivial) children)
  have hreaps : Leads Reaps (orRemove id (populate id spec.registers children)) :=
    hpopulate.tryCatch fun err => (hstable.remove id).bind fun _ => leads_throw err
  exact ((hreaps.ensures t₁).mono (fun _ _ h => h) fun _ _ _ => trivial).bind
    fun _ _ h₂ => h₁.reaps h₂

/-! ## Keys and places -/

/-- No key is in a list twice, and entries stand at the places of their keys. -/
structure Indexed (t : Tree) : Prop where
  keys : ∀ {id e}, t.element? id = some e → (Assoc.keys e.content.links).Nodup
  entry : ∀ {id e l key c}, t.element? id = some e → e.content = .list l → (key, c) ∈ l.members →
    ∃ path, l.IsEntryPath e.path key path ∧ t.Sited c path

theorem indexed_empty : Indexed {} := by
  have hnone : ∀ id, ({} : Tree).element? id = none := fun id => by simp [element?]
  constructor <;> simp [hnone]

/-- Lists that get no entries stay indexed. -/
theorem Indexed.reaps (h : t.Indexed) (hr : t.Reaps t') : t'.Indexed := by
  constructor
  case keys =>
    intro x e' he'
    obtain ⟨e, he, hs⟩ | ⟨-, hnil⟩ := hr.element he'
    · exact Element.nodup_map_of_subperm hs.links Prod.fst (h.keys he)
    · rw [hnil]
      exact List.nodup_nil
  case entry =>
    intro x e' l' key c he' hl' hm
    have hlinks : e'.content.links = l'.members := by rw [hl']; rfl
    obtain ⟨e, he, hs⟩ | ⟨-, hnil⟩ := hr.element he'
    · have hl : e.content = .list { l' with members := e.content.links } :=
        Content.eq_list_of_bare (by rw [← hs.bare, hl'])
      obtain ⟨path, hpath, hsited⟩ := h.entry he hl (hs.links.subset (hlinks ▸ hm))
      refine ⟨path, ?_, hsited.reaps hr⟩
      rw [hs.path]
      exact hpath
    · rw [← hlinks, hnil] at hm
      cases hm

/-- So do those that lose some. -/
theorem Indexed.shrinks (h : t.Indexed) (hs : t.Shrinks t') : t'.Indexed := h.reaps hs.reaps

theorem Indexed.tell (h : t.Indexed) (event : Event) : (t.tell event).Indexed :=
  h.shrinks (sameFrame_tell t event).shrinks

/-- An entry that stands at the place of its key goes into the list. -/
theorem Indexed.insert (h : t.Indexed) (he : t.element? id = some e) (hl : e.content = .list l)
    (hpath : l.IsEntryPath e.path key path) (hsited : t.Sited entry path) :
    (t.modifyElement id (relist (·.insert key entry))).Indexed := by
  have hcases : ∀ {x e'}, (t.modifyElement id (relist (·.insert key entry))).element? x = some e' →
      (x = id ∧ e' = { e with content := .list (l.insert key entry) }) ∨
      t.element? x = some e' := by
    intro x e' he'
    obtain ⟨e₀, he₀, rfl | ⟨rfl, l₀, hl₀, rfl⟩⟩ := relist_cases he'
    · exact .inr he₀
    · obtain rfl : e = e₀ := Option.some.inj (he.symm.trans he₀)
      obtain rfl := Content.list.inj (hl.symm.trans hl₀)
      exact .inl ⟨rfl, rfl⟩
  have hsites : ∀ {c path}, t.Sited c path →
      (t.modifyElement id (relist (·.insert key entry))).Sited c path := by
    intro c path hc
    refine ⟨by simpa using hc.1, fun e' he' => ?_⟩
    obtain ⟨rfl, rfl⟩ | he' := hcases he'
    · exact hc.2 e he
    · exact hc.2 e' he'
  constructor
  case keys =>
    intro x e' he'
    obtain ⟨rfl, rfl⟩ | he' := hcases he'
    · have hkeys := h.keys he
      rw [hl] at hkeys
      exact Assoc.nodup_keys_insert hkeys key entry
    · exact h.keys he'
  case entry =>
    intro x e' l' key' c he' hl' hm
    obtain ⟨rfl, rfl⟩ | he' := hcases he'
    · obtain rfl := Content.list.inj hl'
      obtain heq | hm := Assoc.mem_of_mem_insert hm
      · obtain ⟨rfl, rfl⟩ := Prod.mk.inj heq
        exact ⟨path, hpath, hsites hsited⟩
      · obtain ⟨path', hpath', hc⟩ := h.entry he hl hm
        exact ⟨path', hpath', hsites hc⟩
    · obtain ⟨path', hpath', hc⟩ := h.entry he' hl' hm
      exact ⟨path', hpath', hsites hc⟩

/-- A list stays indexed with a new entry at the place of its key. -/
theorem Indexed.enlisted (h : t.Indexed) (he : t.element? id = some e) (hl : e.content = .list l)
    (l₀ : KeyedList) (hpath : l.IsEntryPath e.path key path) (hsited : t.Sited entry path) :
    (t.enlisted id l₀ key entry).Indexed := by
  have hinsert := h.insert he hl hpath hsited
  unfold Tree.enlisted
  split
  · exact ⟨hinsert.keys, hinsert.entry⟩
  · exact hinsert

/-! ## Adding and deleting -/

/-- An edit that only takes something away keeps lists indexed. -/
theorem indexed_of_shrinks {α : Type} {x : Edit α} (h : Leads Shrinks x) :
    Leads (Keeping Indexed) x :=
  fun t ht => ht.shrinks (h t)

/-- A new entry stands at the place of its key, or is gone. -/
theorem indexed_addEntry (h : t.Indexed) (id : ElementId) (key : Option String) :
    (addEntry id key).Ensures t (fun _ => Indexed) fun _ => Indexed := by
  refine ensures_addEntry (fun _ => h) fun {p e l key' parts path} _ he hl hkey => ?_
  have hsited : (build (.container l.schema.entry .empty) (entrySpec id e path)).Ensures t
      (fun entry t₁ => t₁.Sited entry path) fun _ _ => True := sited_build _ _ rfl
  refine (((reaps_build _ _).ensures t).and hsited).mono (fun entry t₁ h₁ => ?_)
    fun _ _ h₁ => h.reaps h₁.1
  obtain ⟨hreaps, hsited⟩ := h₁
  refine ⟨fun _ _ => h.reaps hreaps, fun before _ => ?_⟩
  refine ((shrinks_tryAssignKey entry _ before).ensures t₁).mono (fun _ t₂ hs => ?_)
    fun _ _ hs => (h.reaps hreaps).shrinks hs
  have hreaps₂ : t.Reaps t₂ := trans_of Reaps hreaps hs.reaps
  refine ⟨fun _ => h.reaps hreaps₂, fun e₂ he₂ => ?_⟩
  -- The list is still the one whose key was looked at, but for entries that it may have lost.
  obtain ⟨e₁, he₁, hse⟩ := hreaps₂.older (index_lt_of_element? he) he₂
  obtain rfl : e = e₁ := Option.some.inj (he.symm.trans he₁)
  have hpath : l.IsEntryPath e₂.path key' path := by
    rw [hse.path]
    exact (entryKey_spec hkey).1
  have hlisted := (h.reaps hreaps₂).enlisted he₂ (hse.list hl) l hpath (hsited.reaps hs.reaps)
  exact (indexed_of_shrinks (shrinks_commit p)).keeps hlisted

/-- Adding an entry keeps all lists indexed. -/
theorem indexed_add (id : ElementId) (key : Option String) : Leads (Keeping Indexed) (add id key) :=
  leads_add (fun event h => h.tell event)
    (leads_keeping_iff.2 fun _ h => indexed_addEntry h id key)

/-- So does deleting one. -/
theorem indexed_delete (id : ElementId) (key : String) :
    Leads (Keeping Indexed) (delete id key) := by
  refine leads_keeping_iff.2 fun t h => ensures_delete (fun _ => h) fun {e} he => ?_
  have htold := h.tell (.deleting e.path key)
  refine ⟨fun _ => htold, fun {p l entry rest} _ hl htake => ?_⟩
  have hkeys : l.keys.Nodup := by
    have hkeys := h.keys he
    rwa [hl] at hkeys
  obtain ⟨hschema, hperm⟩ := KeyedList.perm_of_take hkeys htake
  have hsub : rest.members.Subperm l.members :=
    (List.sublist_cons_self _ _).subperm.trans hperm.symm.subperm
  have htaken : ((t.tell (.deleting e.path key)).withList id rest).Indexed :=
    htold.shrinks (shrinks_withList (t := t.tell (.deleting e.path key)) he hl hschema hsub)
  refine ((indexed_of_shrinks (shrinks_removeSubtree entry)).keeps htaken).mono (fun _ t₂ h₂ => ?_)
    fun _ _ h => h
  exact ((indexed_of_shrinks (shrinks_commit p)).keeps h₂).mono
    (fun _ _ h => h.tell _) fun _ _ h => h

/-! ## Sessions -/

/-- All operations keep lists indexed. -/
theorem linkStable_indexed : LinkStable Indexed where
  shrinks := Indexed.shrinks
  wrap := fun hlinks _ t h => h.reaps (reaps_wrap hlinks t)
  build := fun schema spec t h => h.reaps (reaps_build schema spec t)
  add := indexed_add
  delete := indexed_delete

/-- All lists are indexed in every session. -/
theorem indexed_of_reaches (h : Reaches Unrestricted {} t) : t.Indexed :=
  h.keeps (fun _ op h _ => linkStable_indexed.after op h) indexed_empty

/-! ## Main statement -/

/-- Two entries of a list with a key do not have the same path. -/
theorem Indexed.path_ne (h : t.Indexed) (he : t.element? id = some e) (hl : e.content = .list l)
    (hk : l.schema.key.isKeyless = false) {m m' : String × ElementId} (hm : m ∈ l.members)
    (hm' : m' ∈ l.members) (hne : m ≠ m') {ce ce' : Element} (hce : t.element? m.2 = some ce)
    (hce' : t.element? m'.2 = some ce') : ce.path ≠ ce'.path := by
  obtain ⟨key, c⟩ := m
  obtain ⟨key', c'⟩ := m'
  have hkeys := h.keys he
  rw [hl] at hkeys
  obtain ⟨path, hpath, hsited⟩ := h.entry he hl hm
  obtain ⟨path', hpath', hsited'⟩ := h.entry he hl hm'
  rw [KeyedList.IsEntryPath, if_neg (by simp [hk])] at hpath hpath'
  obtain ⟨parts, hsplit, rfl⟩ := hpath
  obtain ⟨parts', hsplit', rfl⟩ := hpath'
  intro hsame
  rw [hsited.2 ce hce, hsited'.2 ce' hce', String.append_right_inj] at hsame
  obtain rfl := KeySpec.eq_of_predicate_eq hsplit hsplit' hsame
  exact hne (by rw [Assoc.eq_of_mem_of_mem hkeys hm hm'])

/-- **Keys tell entries apart**: different keys that a key statement accepts have different
predicates, and a key is its parts joined by single spaces.  So in every session two entries of
a list with a key stand at different paths, and no path of the registry leads to both. -/
theorem entries_apart :
    (∀ {k : KeySpec} {list list' key key' : String} {parts parts' : List String},
      k.split list key = .ok parts → k.split list' key' = .ok parts' → key ≠ key' →
        k.predicate parts ≠ k.predicate parts') ∧
    (∀ {k : KeySpec} {list key : String} {parts : List String},
      k.split list key = .ok parts → " ".intercalate parts = key) ∧
    ∀ {t : Tree}, Reaches Unrestricted {} t →
      ∀ {id e l}, t.element? id = some e → e.content = .list l →
      l.schema.key.isKeyless = false → ∀ m ∈ l.members, ∀ m' ∈ l.members, m ≠ m' →
        (∀ {ce ce'}, t.element? m.2 = some ce → t.element? m'.2 = some ce' → ce.path ≠ ce'.path) ∧
        ∀ path, .element m.2 ∈ t.registry.targetsAt path →
          .element m'.2 ∉ t.registry.targetsAt path := by
  refine ⟨fun h h' hne heq => hne (KeySpec.eq_of_predicate_eq h h' heq), KeySpec.intercalate_parts,
    fun {t} h {id e l} he hl hk m hm m' hm' hne => ?_⟩
  have hindexed := indexed_of_reaches h
  have hplaced := placed_of_reaches h
  have hpath : ∀ {ce ce'}, t.element? m.2 = some ce → t.element? m'.2 = some ce' →
      ce.path ≠ ce'.path :=
    hindexed.path_ne he hl hk hm hm' hne
  refine ⟨hpath, fun path hreg hreg' => ?_⟩
  obtain ⟨ce, hce, rfl⟩ := (hplaced.2 m.2).exists_element hreg
  obtain ⟨ce', hce', hsame⟩ := (hplaced.2 m'.2).exists_element hreg'
  exact hpath hce hce' hsame.symm

/-- Routes by their two ends. -/
def routes : Blueprint :=
  .container
    [⟨"route", none,
        .list ⟨⟨["from", "to"]⟩,
          [⟨"from", none, .leaf .string⟩, ⟨"to", none, .leaf .string⟩], false⟩⟩]

/-- Two routes whose keys differ in where a quote stands. -/
def routed : Tree :=
  let made := (Operation.instantiate routes { name := "root", registers := true }).after {}
  let one := (Operation.add ⟨1⟩ (some "x' y")).after made
  (Operation.add ⟨1⟩ (some "x 'y")).after one

theorem reaches_routed : Reaches Unrestricted {} routed := by
  have hmade : Reaches Unrestricted {} _ :=
    Reaches.andThen .refl (.instantiate routes { name := "root", registers := true }) trivial
  have hone := hmade.andThen (.add ⟨1⟩ (some "x' y")) trivial
  exact hone.andThen (.add ⟨1⟩ (some "x 'y")) trivial

/-- The quote is pasted into the path as it is, and the routes have places of their own. -/
theorem entries_apart_routed :
    ((⟨["from", "to"]⟩ : KeySpec).split "/route" "x' y" = .ok ["x'", "y"] ∧
      (⟨["from", "to"]⟩ : KeySpec).split "/route" "x 'y" = .ok ["x", "'y"] ∧
      (⟨["from", "to"]⟩ : KeySpec).predicate ["x'", "y"] ≠
        (⟨["from", "to"]⟩ : KeySpec).predicate ["x", "'y"] ∧
      " ".intercalate ["x'", "y"] = "x' y") ∧
    ∃ e l, routed.element? ⟨1⟩ = some e ∧ e.content = .list l ∧ l.schema.key.isKeyless = false ∧
      l.members = [("x' y", ⟨2⟩), ("x 'y", ⟨5⟩)] ∧
      (routed.registry.targetsAt "/route[from='x'' to='y']").map Target.outline =
        ["Element(ElementId(2))"] ∧
      (routed.registry.targetsAt "/route[from='x' to=''y']").map Target.outline =
        ["Element(ElementId(5))"] ∧
      ∀ path, .element ⟨2⟩ ∈ routed.registry.targetsAt path →
        .element ⟨5⟩ ∉ routed.registry.targetsAt path := by
  obtain ⟨hpredicate, hjoin, hapart⟩ := entries_apart
  have hsplit : (⟨["from", "to"]⟩ : KeySpec).split "/route" "x' y" = .ok ["x'", "y"] := by rfl
  have hsplit' : (⟨["from", "to"]⟩ : KeySpec).split "/route" "x 'y" = .ok ["x", "'y"] := by rfl
  refine ⟨⟨hsplit, hsplit', hpredicate hsplit hsplit' (by decide), hjoin hsplit⟩, ?_⟩
  have hlist : (routed.keyedList ⟨1⟩).toOption.map (fun l => (l.schema.key.isKeyless, l.members))
      = some (false, [("x' y", ⟨2⟩), ("x 'y", ⟨5⟩)]) := by decide +kernel
  cases hkeyed : routed.keyedList ⟨1⟩ with
  | error err => simp [hkeyed, Except.toOption] at hlist
  | ok l =>
    obtain ⟨hk, hmembers⟩ := Prod.mk.inj (Option.some.inj (hkeyed ▸ hlist))
    obtain ⟨e, he, hl⟩ := listFor_eq_ok_iff.1 hkeyed
    have hroutes := hapart reaches_routed he hl hk ("x' y", ⟨2⟩) (by simp [hmembers]) ("x 'y", ⟨5⟩)
      (by simp [hmembers]) (by simp)
    exact ⟨e, l, he, hl, hk, hmembers, by decide +kernel, by decide +kernel, hroutes.2⟩

end Tree

end DataTree
