import DataTree.Proofs.Keys.Entry

/-!
# DataTree.Proofs.Keys.Lists

Adding and deleting entries keeps the key leaves of all entries of a list as their keys
say (`KeysHold`).

A new entry gets its key before it is put into the list.  The entries that are there stay
as they are under all of this, or the list is emptied (`Keys.Shelter`).
-/

namespace DataTree.Tree

open Edit Outcome

variable {t t' : Tree} {pending : Set ElementId} {id entry c x : ElementId} {e ce : Element}
  {l : KeyedList} {schema : Schema} {node : ElementId → Schema} {s : ListSchema Schema}
  {pairs : List (String × String)} {parts : List String} {path : String}

/-- The key leaves of every entry of the list hold what the key says. -/
def KeysHold (t : Tree) (id : ElementId) : Prop :=
  ∀ ⦃e l key c⦄, t.element? id = some e → e.content = .list l → (key, c) ∈ l.members →
    ∃ parts, l.schema.key.split e.path key = .ok parts ∧
      t.Keyed l.schema c (l.schema.key.fields.zip parts)

/-- The key leaves of the entry hold what they held. -/
def SameKeys (t : Tree) (c : ElementId) (t' : Tree) : Prop :=
  ∀ ⦃ce⦄, t.element? c = some ce → ∃ ce', t'.element? c = some ce' ∧ ce'.setters = ce.setters ∧
    ∀ ⦃field leaf⦄, (field, leaf) ∈ ce.setters → (t.element? leaf).isSome →
      t'.held leaf = t.held leaf

theorem Keyed.congr (h : t.Keyed s c pairs) (hc : t.SameKeys c t') : t'.Keyed s c pairs := by
  intro before field part after heq hafter
  obtain ⟨ce, leaf, slot, v, hce, hget, hheld, hrest⟩ := h before field part after heq hafter
  obtain ⟨ce', hce', hset, hsame⟩ := hc hce
  obtain ⟨le, hle, -⟩ := held_eq_some_iff.1 hheld
  refine ⟨ce', leaf, slot, v, hce', by rw [hset, hget], ?_, hrest⟩
  rw [hsame (Assoc.mem_of_get?_eq_some hget) (by rw [hle]; rfl), hheld]

theorem sameKeys_of_element (hc : t'.element? c = t.element? c)
    (h : ∀ ce field leaf, t.element? c = some ce → (field, leaf) ∈ ce.setters →
      (t.element? leaf).isSome → t'.held leaf = t.held leaf) : t.SameKeys c t' :=
  fun ce hce => ⟨ce, by rw [hc, hce], rfl, fun field leaf => h ce field leaf hce⟩

/-- A key leaf is under the list that its entry is in. -/
theorem Sound.under_of_setter (h : Sound t pending)
    (hp : ∀ x ∈ pending, ∀ xe, t.element? x = some xe → xe.parent = some id)
    (he : t.element? id = some e) (hl : e.content = .list l) {key field : String} {leaf : ElementId}
    (hm : (key, c) ∈ l.members) (hce : t.element? c = some ce) (hset : (field, leaf) ∈ ce.setters)
    (hleaf : (t.element? leaf).isSome) : t.Under id c ∧ t.Under id leaf := by
  have habove : t.Above id c := ⟨e, he, Element.mem_below_of_entry hl hm⟩
  obtain ⟨-, hlt, -⟩ := h.of_above habove
  obtain ⟨le, hle⟩ := Option.isSome_iff_exists.1 hleaf
  obtain ⟨hpar, -⟩ := (h.setter hce hset).2 le hle
  have hnot : leaf ∉ pending := by
    intro hmem
    obtain rfl : c = id := Option.some.inj (hpar.symm.trans (hp leaf hmem le hle))
    exact Nat.lt_irrefl _ hlt
  have hc : t.Under id c := .tail .refl habove
  exact ⟨hc, h.under_of_parent hle hpar hnot hc⟩

/-- What shelters the list keeps its keys. -/
theorem KeysHold.shelters (h : t.KeysHold id) (hs : Sound t pending)
    (hp : ∀ x ∈ pending, ∀ xe, t.element? x = some xe → xe.parent = some id) (hshr : t.Shrinks t')
    (hsh : t.Shelters id t') : t'.KeysHold id := by
  intro e' l' key c he' hl' hm
  have hladen : t'.Laden id := by
    refine ⟨e', he', ?_⟩
    rw [hl', Content.holdsData, KeyedList.isEmpty, Bool.not_eq_true', List.isEmpty_eq_false_iff]
    exact List.ne_nil_of_mem hm
  obtain ⟨e, he, hse⟩ := hshr.element he'
  have hheld := hsh hladen id .refl
  rw [held, held, he, he', Option.map_some, Option.map_some, hl'] at hheld
  have hl : e.content = .list l' := (Option.some.inj hheld).symm
  obtain ⟨parts, hsplit, hkeyed⟩ := h he hl hm
  refine ⟨parts, by rw [Element.path_of_bare hse.bare, hsplit], hkeyed.congr fun ce hce => ?_⟩
  have hc : t.Under id c := .tail .refl ⟨e, he, Element.mem_below_of_entry hl hm⟩
  have hcheld := hsh hladen c hc
  rw [held_eq_some_iff.2 ⟨ce, hce, rfl⟩] at hcheld
  obtain ⟨ce', hce', -⟩ := held_eq_some_iff.1 hcheld
  obtain ⟨ce₀, hce₀, hsce⟩ := hshr.element hce'
  obtain rfl : ce = ce₀ := Option.some.inj (hce.symm.trans hce₀)
  refine ⟨ce', hce', Element.setters_of_bare hsce.bare, fun field leaf hset hleaf => ?_⟩
  exact hsh hladen leaf (hs.under_of_setter hp he hl hm hce hset hleaf).2

/-- Keys do not depend on what is no part of the list and its entries. -/
theorem KeysHold.of_element (h : t.KeysHold id) (hs : Sound t ∅)
    (hel : ∀ {x : ElementId}, x.index < t.slots.size → t'.element? x = t.element? x)
    (hid : t'.element? id = t.element? id) : t'.KeysHold id := by
  intro e l key c he hl hm
  rw [hid] at he
  obtain ⟨parts, hsplit, hkeyed⟩ := h he hl hm
  obtain ⟨-, ce, hce, -⟩ := hs.entry he hl hm
  refine ⟨parts, hsplit, hkeyed.congr (sameKeys_of_element (hel (index_lt_of_element? hce)) ?_)⟩
  intro ce' field leaf hce' hset _
  exact held_congr (hel (hs.setter hce' hset).1)

/-- Putting an entry with its key assigned into the list. -/
theorem KeysHold.enlisted (h : t.KeysHold id) (hs : Sound t {entry}) (he : t.element? id = some e)
    (hl : e.content = .list l) (hlt : id.index < entry.index) (l' : KeyedList) {key : String}
    (hsplit : l.schema.key.split e.path key = .ok parts)
    (hkeyed : t.Keyed l.schema entry (l.schema.key.fields.zip parts)) :
    (t.enlisted id l' key entry).KeysHold id := by
  have hother : ∀ {x}, x ≠ id → (t.enlisted id l' key entry).element? x =
      t.element? x := fun hx => by
    rw [element?_enlisted, element?_modifyElement_of_ne hx]
  have hself : (t.enlisted id l' key entry).element? id
      = some { e with content := .list (l.insert key entry) } := by
    rw [element?_enlisted, element?_modifyElement_self he, relist_of_list hl]
  -- Neither the entry nor its leaves are the list.
  have hsame : ∀ {c}, id.index < c.index → t.SameKeys c (t.enlisted id l' key entry) := by
    intro c hc
    refine sameKeys_of_element (hother ?_) fun ce field leaf hce hset hleaf =>
      held_congr (hother ?_)
    · rintro rfl
      exact Nat.lt_irrefl _ hc
    · rintro rfl
      obtain ⟨le, hle⟩ := Option.isSome_iff_exists.1 hleaf
      have hlt := hs.parent_lt hle ((hs.setter hce hset).2 le hle).1
      omega
  intro e' l₁ key' c he' hl₁ hm
  obtain rfl := Option.some.inj (hself.symm.trans he')
  obtain rfl := Content.list.inj hl₁
  obtain heq | hm := Assoc.mem_of_mem_insert hm
  · obtain ⟨rfl, rfl⟩ := Prod.mk.inj heq
    exact ⟨parts, hsplit, hkeyed.congr (hsame hlt)⟩
  · obtain ⟨parts', hsplit', hkeyed'⟩ := h he hl hm
    obtain ⟨-, ce, hce, -, hpar, -⟩ := hs.entry he hl hm
    exact ⟨parts', hsplit', hkeyed'.congr (hsame (hs.parent_lt hce hpar))⟩

/-- Taking entries out of the list. -/
theorem KeysHold.withList {rest : KeyedList} (h : t.KeysHold id) (hs : Sound t ∅)
    (he : t.element? id = some e) (hl : e.content = .list l) (hschema : rest.schema = l.schema)
    (hsub : rest.members ⊆ l.members) : (t.withList id rest).KeysHold id := by
  have hother : ∀ {x}, x ≠ id → (t.withList id rest).element? x = t.element? x := fun hx =>
    element?_modifyElement_of_ne hx _
  intro e' l' key c he' hl' hm
  rw [Tree.withList, element?_modifyElement_self he, relist_of_list hl] at he'
  obtain rfl := Option.some.inj he'
  obtain rfl := Content.list.inj hl'
  obtain ⟨parts, hsplit, hkeyed⟩ := h he hl (hsub hm)
  obtain ⟨-, ce, hce, -, hpar, -⟩ := hs.entry he hl (hsub hm)
  have hlt := hs.parent_lt hce hpar
  rw [hschema]
  refine ⟨parts, hsplit, hkeyed.congr (sameKeys_of_element (hother ?_) ?_)⟩
  · rintro rfl
    exact Nat.lt_irrefl _ hlt
  · intro ce' field leaf hce' hset hleaf
    refine held_congr (hother ?_)
    rintro rfl
    obtain ⟨le, hle⟩ := Option.isSome_iff_exists.1 hleaf
    have hlt' := hs.parent_lt hle ((hs.setter hce' hset).2 le hle).1
    omega

/-- Carrying out the plan of the list. -/
theorem Sound.keysHold_commit {p : Plan} (h : Sound t ∅) (hd : t.Declared) (hk : t.KeysHold id)
    (hhooks : ∀ hook ∈ p.unsets, ∃ c, hook = .contents c) (hout : t.LeadOut id p.unsets) :
    (commit p).Ensures t (fun _ t' => t'.KeysHold id) fun _ t' => t'.KeysHold id := by
  have hkeep : ∀ {t'}, t.Shelters id t' ∧ t.Shrinks t' → t'.KeysHold id := fun h' =>
    hk.shelters h (fun x hx => hx.elim) h'.2 h'.1
  exact ((h.shelters_commit hd hhooks hout).and ((shrinks_commit p).ensures t)).mono
    (fun _ _ h' => hkeep h') fun _ _ h' => hkeep h'

/-! ## Adding -/

/-- The parts that are assigned are those of the key. -/
theorem split_of_entryKey {n : Nat} {key : Option String} {key' entryPath : String}
    (hk : l.schema.key.isKeyless = false)
    (h : entryKey l path n key = .ok (key', parts, entryPath)) :
    l.schema.key.split path key' = .ok parts := by
  unfold entryKey at h
  simp only [hk, Bool.false_eq_true, if_false] at h
  cases key with
  | none => cases h
  | some key =>
    simp only at h
    split at h
    · cases h
    · obtain ⟨parts', hsplit, h⟩ := bind_eq_ok.1 h
      simp only [pure_eq_ok, Prod.mk.injEq] at h
      obtain ⟨rfl, rfl, -⟩ := h
      exact hsplit

/-- Assigning the key of a new entry keeps the keys of the list, and the new entry has its own
unless it goes again. -/
theorem Waits.keysHold_tryAssignKey (h : t.Waits schema node s id entry) (hk : t.KeysHold id)
    (hplain : s.PlainKeys) (hfields : ∀ q ∈ pairs, q.1 ∈ s.key.fields)
    (before : List (ElementId × Bool)) :
    (tryAssignKey entry pairs before).Ensures t
      (fun _ t' => Sound t' {entry} ∧ t.Shrinks t' ∧ t'.KeysHold id ∧ t'.Keyed s entry pairs)
      fun _ t' => t'.KeysHold id := by
  have hpending : ∀ {t' : Tree}, t.Shrinks t' → ∀ x ∈ ({entry} : Set ElementId), ∀ xe,
      t'.element? x = some xe → xe.parent = some id := by
    rintro t' hs x rfl xe' hxe'
    obtain ⟨xe, hxe, hse⟩ := hs.element hxe'
    obtain ⟨ce, hce, hpar, -⟩ := h.element
    rw [Element.parent_of_bare hse.bare, Option.some.inj (hxe.symm.trans hce), hpar]
  obtain ⟨ce, hce, -⟩ := h.element
  have hrefl := refl_of Shrinks t
  rw [tryAssignKey, ensures_tryCatch]
  refine (h.ensures_assignKey hplain hce hfields hrefl h.sound (shelters_refl t id)).mono
    (fun _ t₁ h₁ => ?_) fun err t₁ h₁ => ?_
  · obtain ⟨hs₁, hshr, hsh, hkeyed, -⟩ := h₁
    exact ⟨hs₁, hshr, hk.shelters h.sound (hpending hrefl) hshr hsh, hkeyed⟩
  · obtain ⟨hs₁, hshr, hsh⟩ := h₁
    have hk₁ := hk.shelters h.sound (hpending hrefl) hshr hsh
    have hrm :=
      (hs₁.removePending (Set.mem_singleton entry)).and ((shrinks_removeSubtree entry).ensures t₁)
    rw [Set.sdiff_self] at hrm
    refine (hrm.mono (fun _ _ hd => hd) fun _ _ hf => hf.1.elim).bind fun _ t₂ h₂ => ?_
    obtain ⟨⟨hs₂, -, hstays⟩, hshr₂⟩ := h₂
    have hk₂ := hk₁.shelters hs₁ (hpending hshr) hshr₂
      (hs₁.shelters_removeSubtree (Set.mem_singleton entry) hstays h.lt)
    have hmarks := ((shrinks_restoreMarks before).ensures t₂).and
      ((sameData_restoreMarks before).ensures t₂)
    have hkeep : ∀ {t₃}, t₂.Shrinks t₃ ∧ t₂.SameData t₃ → t₃.KeysHold id := fun h₃ =>
      hk₂.shelters hs₂ (fun x hx => hx.elim) h₃.1 ((shelters_refl t₂ id).same fun y _ => h₃.2 y)
    exact (hmarks.mono (fun _ _ hd => hd) fun _ _ hf => hkeep hf).bind fun _ _ h₃ => hkeep h₃

/-- Adding an entry keeps the keys of the list, whether it succeeds or fails. -/
theorem keysHold_addEntry (hs : Sound t ∅) (hf : t.Follows schema node) (hk : t.KeysHold id)
    {default : Value} (hid : node id = .list s default) (hplain : s.PlainKeys)
    (hkeyed : s.key.isKeyless = false) (key : Option String) :
    (addEntry id key).Ensures t (fun _ t' => t'.KeysHold id) fun _ t' => t'.KeysHold id := by
  refine ensures_addEntry (fun _ => hk) fun {p e l key' parts path} hp he hl hkey => ?_
  obtain ⟨default', hid'⟩ := hf.schema_eq he hl
  obtain rfl : l.schema = s := (Schema.list.inj (hid'.symm.trans hid)).1
  have hsplit := split_of_entryKey hkeyed hkey
  have hbuild := (ensures_buildEntry hs he hl).and
    (follows_build (.ofEntry l.schema) hf (awaits_entry he hl path))
  refine hbuild.mono (fun entry t₁ hb => ?_) fun _ t₁ hb => ?_
  · obtain ⟨hent, node₁, hstands⟩ := hb
    obtain ⟨before, hbefore⟩ := hent.exists_marks he
    refine ⟨fun err herr => ?_, fun before' _ => ?_⟩
    · rw [hbefore] at herr
      cases herr
    have hk₁ := hk.of_element hs hent.older (by rw [hent.list, he])
    have hlt := hent.index_lt he
    have hwaits : t₁.Waits schema node₁ l.schema id entry := by
      obtain ⟨ce, hce, hpar, -⟩ := hent.element
      exact ⟨hent.sound, hstands.follows, hstands.node_id, hlt, ⟨e, l, hent.list, hl⟩,
        ce, hce, hpar, hstands.case_self hce⟩
    have hfields : ∀ q ∈ l.schema.key.fields.zip parts, q.1 ∈ l.schema.key.fields := fun q hq =>
      (List.of_mem_zip hq).1
    refine (hwaits.keysHold_tryAssignKey hk₁ hplain hfields before').mono (fun _ t₂ h₂ => ?_)
      fun _ _ hf => hf
    obtain ⟨hs₂, hshr, hk₂, hown⟩ := h₂
    refine ⟨fun _ => hk₂, fun e₂ he₂ => ?_⟩
    obtain ⟨e₁, he₁, hse⟩ := hshr.element he₂
    obtain rfl : e = e₁ := Option.some.inj (hent.list.symm.trans he₁)
    obtain ⟨members, hl₂, -⟩ := hshr.list hent.list hl he₂
    have hsplit₂ : l.schema.key.split e₂.path key' = .ok parts := by
      rw [Element.path_of_bare hse.bare]
      exact hsplit
    have hk₃ := hk₂.enlisted hs₂ he₂ hl₂ hlt l hsplit₂ hown
    have hs₃ := hent.sound_enlisted hl hkey hshr hs₂ he₂
    have hf₃ := (hstands.enlisted hid' (index_lt_of_element? he) hshr key').follows
    obtain ⟨e₃, he₃, l₃, hl₃⟩ : ∃ e₃, (t₂.enlisted id l key' entry).element? id = some e₃ ∧
        ∃ l₃, e₃.content = .list l₃ :=
      ⟨_, by rw [element?_enlisted, element?_modifyElement_self he₂, relist_of_list hl₂], _, rfl⟩
    -- The plan of the list is still the same.
    have holder : t.BareTo id t₁ := by
      intro y e' hy he'
      have hlt := index_lt_of_element? he
      rw [hent.older (by omega)] at he'
      exact ⟨e', he', rfl⟩
    have hbare := (holder.trans (hshr.thins.bareTo id)).trans
      ((retains_enlisted t₂ id l key' entry).thins.bareTo id)
    have hp₃ := planFrom_of_bare hs₃ hbare (by rw [he₃]; rfl) (fun _ hy => hy.elim) hp
    exact hs₃.keysHold_commit hf₃.declared hk₃ ((frameStable_sound ∅).plan hs hp)
      (hf₃.leadOut hs₃ (fun _ hy => hy.elim) he₃ hl₃ hp₃)
  · obtain ⟨⟨-, hr⟩, -⟩ := hb
    exact hk.of_element hs (fun _ => hr.element _) (hr.element id)

/-! ## Deleting -/

/-- Deleting an entry keeps the keys of the others. -/
theorem keysHold_delete (hs : Sound t ∅) (hf : t.Follows schema node) (hk : t.KeysHold id)
    (key : String) :
    (delete id key).Ensures t (fun _ t' => t'.KeysHold id) fun _ t' => t'.KeysHold id := by
  refine ensures_delete (fun _ => hk) fun {e} he => ?_
  have htell : ∀ {t' : Tree} (event : Event),
      Sound t' ∅ → t'.KeysHold id → (t'.tell event).KeysHold id :=
    fun event hs' hk' => hk'.of_element hs' (fun _ => rfl) rfl
  have hs₁ : Sound (t.tell (.deleting e.path key)) ∅ := hs.sameFrame (sameFrame_tell t _)
  have hf₁ : (t.tell (.deleting e.path key)).Follows schema node := hf.of_slots rfl
  have hk₁ := htell (.deleting e.path key) hs hk
  refine ⟨fun _ => hk₁, fun {p l entry rest} hp hl htake => ?_⟩
  obtain ⟨hschema, hperm⟩ := KeyedList.perm_of_take (hs.keys he hl) htake
  have hsub : rest.members.Subperm l.members :=
    (List.sublist_cons_self _ _).subperm.trans hperm.symm.subperm
  have hout := hf₁.leadOut hs₁ (fun _ hy => hy.elim) he hl hp
  have hs₂ := hs₁.takeEntry (t := t.tell (.deleting e.path key)) he hl htake
  have hk₂ := hk₁.withList (t := t.tell (.deleting e.path key)) hs₁ he hl hschema hsub.subset
  have hshr₂ := shrinks_withList (t := t.tell (.deleting e.path key)) he hl hschema hsub
  obtain ⟨-, ce, hce, -, hpar, -⟩ := hs.entry he hl (hperm.mem_iff.2 List.mem_cons_self)
  have hpending : ∀ x ∈ ({entry} : Set ElementId), ∀ xe,
      ((t.tell (.deleting e.path key)).withList id rest).element? x = some xe →
      xe.parent = some id := by
    rintro x rfl xe' hxe'
    obtain ⟨xe, hxe, hse⟩ := hshr₂.element hxe'
    have hxe : t.element? x = some xe := hxe
    rw [Element.parent_of_bare hse.bare, Option.some.inj (hxe.symm.trans hce), hpar]
  have hrm :=
    (hs₂.removePending (Set.mem_singleton entry)).and ((shrinks_removeSubtree entry).ensures _)
  rw [Set.sdiff_self] at hrm
  refine hrm.mono (fun _ t₃ h₃ => ?_) fun _ _ hf => hf.1.elim
  obtain ⟨⟨hs₃, -, hstays⟩, hshr₃⟩ := h₃
  have hk₃ := hk₂.shelters hs₂ hpending hshr₃
    (hs₂.shelters_removeSubtree (Set.mem_singleton entry) hstays (hs.parent_lt hce hpar))
  have hshr := trans_of Shrinks hshr₂ hshr₃
  have hcommit := hs₃.keysHold_commit (hf₁.shrinks hshr).declared hk₃
    ((frameStable_sound ∅).plan hs₁ hp) (hout.shrinks hshr)
  have hsound :=
    ((frameStable_sound ∅).assignStable.commit ((frameStable_sound ∅).plan hs₁ hp)).ensures t₃
  exact (hcommit.and hsound).mono (fun _ t₄ h₄ => htell _ (h₄.2 hs₃) h₄.1) fun _ _ h₄ => h₄.1

end DataTree.Tree
