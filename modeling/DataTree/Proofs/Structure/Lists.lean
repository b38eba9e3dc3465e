import DataTree.Proofs.Entries
import DataTree.Proofs.Structure.Build

/-!
# DataTree.Proofs.Structure.Lists

Adding and deleting entries keeps a sound structure.

While its key leaves are assigned, a new entry is pending.  Assigning may run hooks
that unset the list or something above it.  But an assignment that succeeds has
marked everything up to the root, so if the entry is put into the list at all, the
list is still there (`isSome_of_assignKey`).
-/

namespace DataTree

open Edit Outcome

/-- What is taken out of a list, and what stays. -/
theorem KeyedList.perm_of_take {l rest : KeyedList} {key : String} {entry : ElementId}
    (hn : l.keys.Nodup) (h : l.take? key = some (entry, rest)) :
    rest.schema = l.schema ∧ l.members.Perm ((key, entry) :: rest.members) := by
  unfold KeyedList.take? at h
  obtain ⟨entry', hget, h⟩ := Option.map_eq_some_iff.1 h
  obtain ⟨rfl, rfl⟩ := Prod.mk.inj h
  refine ⟨rfl, (Assoc.perm_cons_erase hn hget).trans (.cons _ ?_)⟩
  simp only
  split
  · exact .refl _
  · exact (Assoc.swapErase_perm_erase hn key).symm

namespace Tree

variable {t t' : Tree} {pending : Set ElementId} {id x : ElementId} {e : Element}

/-! ## Climbing -/

/-- Climbing from an element ends, if nothing above it is pending. -/
theorem exists_marksFrom (h : Sound t pending) {fuel : Nat} (he : t.element? id = some e)
    (hp : ∀ x ∈ pending, id.index < x.index) (hfuel : id.index < fuel) :
    ∃ marks, t.marksFrom fuel id = .ok marks := by
  induction fuel generalizing id e with
  | zero => omega
  | succ fuel ih =>
    have hel : t.element id = .ok e := element_eq_ok_iff.2 he
    cases hpar : e.parent with
    | none =>
      refine ⟨[(id, e.changed)], ?_⟩
      rw [marksFrom, bind_eq_ok]
      exact ⟨e, hel, by rw [hpar]; rfl⟩
    | some p =>
      have hlt := h.parent_lt he hpar
      have hid : id ∉ pending := fun hm => Nat.lt_irrefl _ (hp id hm)
      obtain ⟨pe, hpe, -⟩ := h.listed he hpar hid
      obtain ⟨above, ha⟩ := ih hpe (fun x hx => Nat.lt_trans hlt (hp x hx)) (by omega)
      refine ⟨(id, e.changed) :: above, ?_⟩
      rw [marksFrom, bind_eq_ok]
      exact ⟨e, hel, by rw [hpar]; exact bind_eq_ok.2 ⟨above, ha, rfl⟩⟩

/-- A plan marks the element that it is made for. -/
theorem mem_marks_of_planFrom {fuel : Nat} {active : Option Case} {p : Plan}
    (h : t.planFrom fuel id active = .ok p) : id ∈ p.marks := by
  cases fuel with
  | zero => cases h
  | succ fuel =>
    obtain ⟨e, hooks, -, -, h⟩ := planFrom_succ_eq_ok.1 h
    obtain ⟨-, rfl⟩ | ⟨parent, above, -, -, rfl⟩ := h
    · exact List.mem_singleton_self id
    · exact List.mem_cons_self

/-- There is a plan only for an element that is there. -/
theorem exists_of_planFrom {fuel : Nat} {active : Option Case} {p : Plan}
    (h : t.planFrom fuel id active = .ok p) : ∃ e, t.element? id = some e := by
  cases fuel with
  | zero => cases h
  | succ fuel =>
    obtain ⟨e, hooks, he, -, -⟩ := planFrom_succ_eq_ok.1 h
    exact ⟨e, he⟩

/-- A plan goes through the parent of every element that it marks. -/
theorem mem_marks_of_parent {fuel : Nat} {active : Option Case} {p : Plan} {q : ElementId}
    (h : t.planFrom fuel id active = .ok p) (hx : x ∈ p.marks) (he : t.element? x = some e)
    (hq : e.parent = some q) : q ∈ p.marks := by
  induction fuel generalizing id active p with
  | zero => cases h
  | succ fuel ih =>
    obtain ⟨e', hooks, he', -, h⟩ := planFrom_succ_eq_ok.1 h
    obtain ⟨hroot, rfl⟩ | ⟨parent, above, hpar, ha, rfl⟩ := h
    · obtain rfl := List.mem_singleton.1 hx
      obtain rfl : e = e' := Option.some.inj (he.symm.trans he')
      rw [hroot] at hq
      cases hq
    · obtain rfl | hx := List.mem_cons.1 hx
      · obtain rfl : e = e' := Option.some.inj (he.symm.trans he')
        obtain rfl : q = parent := Option.some.inj (hq.symm.trans hpar)
        exact List.mem_cons_of_mem _ (mem_marks_of_planFrom ha)
      · exact List.mem_cons_of_mem _ (ih ha hx)

/-- A plan marks older and older elements. -/
theorem index_le_of_mem_marks (h : Sound t pending) {fuel : Nat} {active : Option Case} {p : Plan}
    {y : ElementId} (hp : t.planFrom fuel x active = .ok p) (hy : y ∈ p.marks) :
    y.index ≤ x.index := by
  induction fuel generalizing x active p with
  | zero => cases hp
  | succ fuel ih =>
    obtain ⟨e, hooks, he, -, ⟨-, rfl⟩ | ⟨q, above, hq, ha, rfl⟩⟩ := planFrom_succ_eq_ok.1 hp
    · rw [List.mem_singleton.1 hy]
    · obtain rfl | hy := List.mem_cons.1 hy
      · exact Nat.le_refl _
      · exact Nat.le_of_lt (Nat.lt_of_le_of_lt (ih ha hy) (h.parent_lt he hq))

/-- Marking succeeds only where everything marked is there. -/
theorem isSome_of_markChanged (ids : List ElementId) (t : Tree) :
    (markChanged ids).Ensures t (fun _ t' => ∀ x ∈ ids, (t'.element? x).isSome)
      fun _ _ => True := by
  induction ids generalizing t with
  | nil => exact fun x hx => by cases hx
  | cons id ids ih =>
    show (update id _ >>= fun _ => markChanged ids).Ensures t _ _
    rw [ensures_bind, ensures_update]
    refine ⟨fun e he => ?_, fun _ => trivial⟩
    let t₁ := t.modifyElement id fun e => { e with changed := true }
    refine ((ih t₁).and ((sameFrame_markChanged ids).ensures t₁)).mono (fun _ t' h x hx => ?_)
      fun _ _ _ => trivial
    obtain ⟨hrest, hsame⟩ := h
    obtain rfl | hx := List.mem_cons.1 hx
    · rw [hsame.isSome, isSome_element?_modifyElement, he]
      rfl
    · exact hrest x hx

/-- After a successful assignment everything that its plan marks is there. -/
theorem isSome_of_setLeaf (id : ElementId) (raw : Value) (t : Tree) :
    (setLeaf id raw).Ensures t (fun _ t' => ∃ fuel p, t.planFrom fuel id none = .ok p ∧
      ∀ x ∈ p.marks, (t'.element? x).isSome) fun _ _ => True := by
  rw [setLeaf, ensures_reading_bind]
  refine ⟨fun t₀ ht₀ => ?_, fun _ _ => trivial⟩
  rw [assignFrom, ensures_reading_bind]
  refine ⟨fun p hp => ?_, fun _ _ => trivial⟩
  rw [ensures_get_bind]
  refine ⟨fun e _ => ?_, fun _ => trivial⟩
  rw [ensures_ofExcept_bind]
  refine ⟨fun type _ => ?_, fun _ _ => trivial⟩
  refine (ensures_true _ t).bind fun value t₁ _ => (ensures_true _ t₁).bind fun _ t₂ _ =>
    (ensures_true _ t₂).bind fun _ t₃ _ => ?_
  exact (isSome_of_markChanged p.marks t₃).mono (fun _ _ h => ⟨_, p, hp, h⟩) fun _ _ h => h

/-- After the key leaves of an entry were assigned, its list is there. -/
theorem isSome_of_assignKey {entry : ElementId} {parts : List (String × String)}
    (h : Sound t pending) (hne : parts ≠ []) (he : t.element? entry = some e)
    (hid : e.parent = some id) :
    (assignKey entry parts).Ensures t (fun _ t' => (t'.element? id).isSome) fun _ _ => True := by
  induction parts generalizing t e with
  | nil => exact absurd rfl hne
  | cons fp rest ih =>
    obtain ⟨field, part⟩ := fp
    rw [assignKey, ensures_get_bind]
    refine ⟨fun e' he' => ?_, fun _ => trivial⟩
    obtain rfl : e = e' := Option.some.inj (he.symm.trans he')
    rw [ensures_ofExcept_bind]
    refine ⟨fun leaf hleaf => ?_, fun _ _ => trivial⟩
    have hstep := (isSome_of_setLeaf leaf (.text part) t).and
      (((frameStable_sound pending).assignStable.setLeaf leaf (.text part)).ensures t)
    have hshrinks := (shrinks_setLeaf leaf (.text part)).ensures t
    refine ((hstep.and hshrinks).mono (fun _ _ h => h) fun _ _ _ => trivial).bind fun _ t₁ h₁ => ?_
    obtain ⟨⟨⟨fuel, p, hp, hmarks⟩, hsound⟩, hs⟩ := h₁
    have hsetter : (field, leaf) ∈ e.setters := by
      unfold setterFor at hleaf
      split at hleaf
      · next hget =>
        obtain rfl := Except.ok.inj hleaf
        exact Assoc.mem_of_get?_eq_some hget
      · cases hleaf
    obtain ⟨ce, hce⟩ := exists_of_planFrom hp
    have hentry : entry ∈ p.marks :=
      mem_marks_of_parent hp (mem_marks_of_planFrom hp) hce ((h.setter he hsetter).2 ce hce).1
    have hidm := mem_marks_of_parent hp hentry he hid
    by_cases hrest : rest = []
    · subst hrest
      exact hmarks id hidm
    · obtain ⟨e₁, he₁⟩ := Option.isSome_iff_exists.1 (hmarks entry hentry)
      obtain ⟨e₀, he₀, hse⟩ := hs.element he₁
      obtain rfl : e = e₀ := Option.some.inj (he.symm.trans he₀)
      exact ih (hsound h) hrest he₁ (by rw [Element.parent_of_bare hse.bare, hid])

/-! ## Keys -/

/-- Keys that are made are all different. -/
theorem madeKey_injective {m n : Nat} (h : madeKey m = madeKey n) : m = n := by
  have hl := congrArg String.toList h
  simp only [madeKey, Numeral.natText, String.toList_append, String.toList_ofList,
    List.append_cancel_left_eq] at hl
  have hm := Numeral.readNat?_renderNat m
  rw [hl, Numeral.readNat?_renderNat n] at hm
  exact (Option.some.inj hm).symm

/-- The key of a new entry is new to its list, also after the list has lost entries. -/
theorem entryKey_spec {l : KeyedList} {path key' entryPath : String} {key : Option String}
    {parts : List String} (h : entryKey l path t.madeKeys key = .ok (key', parts, entryPath)) :
    l.IsEntryPath path key' entryPath ∧
      (l.schema.key.isKeyless = true → key' = madeKey t.madeKeys ∧ parts = []) ∧
      (l.schema.key.isKeyless = false → key' ∉ l.keys ∧
        parts.length = l.schema.key.fields.length) := by
  unfold entryKey at h
  simp only at h
  split at h
  · next hk =>
    simp only [Except.ok.injEq, Prod.mk.injEq] at h
    obtain ⟨rfl, rfl, rfl⟩ := h
    refine ⟨?_, fun _ => ⟨rfl, rfl⟩, fun hno => by rw [hk] at hno; cases hno⟩
    rw [KeyedList.IsEntryPath, if_pos hk]
  · next hk =>
    cases key with
    | none => cases h
    | some key =>
      simp only at h
      split at h
      · cases h
      · next hc =>
        obtain ⟨parts', hsplit, h⟩ := bind_eq_ok.1 h
        simp only [pure_eq_ok, Prod.mk.injEq] at h
        obtain ⟨rfl, rfl, rfl⟩ := h
        refine ⟨?_, fun hyes => absurd hyes hk, fun _ => ⟨?_, KeySpec.length_of_split hsplit⟩⟩
        · rw [KeyedList.IsEntryPath, if_neg hk]
          exact ⟨parts', hsplit, rfl⟩
        · rw [Bool.not_eq_true] at hc
          exact Assoc.contains_eq_false_iff.1 hc

/-- A list with a key takes any new key that has its parts. -/
theorem entryKey_eq_ok_iff {l : KeyedList} {path key key' entryPath : String} {parts : List String}
    {n : Nat} (hkeyed : l.schema.key.isKeyless = false) :
    entryKey l path n (some key) = .ok (key', parts, entryPath) ↔
      key ∉ l.keys ∧ l.schema.key.split path key = .ok parts ∧ key' = key ∧
        entryPath = path ++ l.schema.key.predicate parts := by
  have hcontains : l.contains key = false ↔ key ∉ l.keys := Assoc.contains_eq_false_iff
  rw [entryKey, if_neg (by simp [hkeyed])]
  by_cases hnew : l.contains key = true
  · simp [hnew, ← hcontains]
  · rw [Bool.not_eq_true] at hnew
    simp only [hnew, Bool.false_eq_true, if_false, hcontains.1 hnew, not_false_eq_true, true_and]
    rw [bind_eq_ok]
    constructor
    · intro h
      obtain ⟨parts', hsplit, h⟩ := h
      obtain ⟨rfl, hrest⟩ := Prod.mk.inj (pure_eq_ok.1 h)
      obtain ⟨rfl, rfl⟩ := Prod.mk.inj hrest
      exact ⟨hsplit, rfl, rfl⟩
    · intro h
      obtain ⟨hsplit, rfl, rfl⟩ := h
      exact ⟨parts, hsplit, rfl⟩

/-! ## Adding -/

/-- A new entry as it was built: it is pending behind everything else, and nothing before it
has changed. -/
structure Entering (t : Tree) (id : ElementId) (e : Element) (path : String) (entry : ElementId)
    (t' : Tree) : Prop where
  entry_eq : entry = ⟨t.slots.size⟩
  sound : Sound t' {entry}
  element : ∃ ce, t'.element? entry = some ce ∧ ce.parent = some id ∧ ce.path = path ∧
    ce.content = .container
  list : t'.element? id = some e
  older : ∀ {x}, x.index < t.slots.size → t'.element? x = t.element? x
  rooted : t'.Rooted entry
  size_lt : t.slots.size < t'.slots.size
  madeKeys : t'.madeKeys = t.madeKeys

section

variable {l : KeyedList} {path : String}

/-- A new entry fits below its list. -/
theorem fits_entrySpec (he : t.element? id = some e) (hl : e.content = .list l) (path : String) :
    t.Fits (entrySpec id e path) := by
  refine ⟨fun q hq => ⟨e, Option.some.inj hq ▸ he⟩, fun {q pe} hq hpe hc => ?_⟩
  obtain rfl := Option.some.inj hq
  obtain rfl : e = pe := Option.some.inj (he.symm.trans hpe)
  rw [hl] at hc
  cases hc

/-- Where an entry is built, nothing else happens. -/
theorem Built.entering (he : t.element? id = some e) (hl : e.content = .list l) {entry : ElementId}
    (hb : t.Built (entrySpec id e path) true ∅ entry t') : t.Entering id e path entry t' := by
  have hid := index_lt_of_element? he
  have hlink : ∀ x, (t.link (entrySpec id e path)).element? x = t.element? x := by
    intro x
    rw [element?_link]
    split
    · next hx =>
      obtain rfl := Option.some.inj hx
      have hcont : e.content.isContainer = false := by rw [hl]; rfl
      simp [he, Element.gain, hcont]
    · rfl
  have hset : ∅ ∪ t.pendingFor (entrySpec id e path) = {entry} := by
    rw [pendingFor_of_ne rfl he (by simp [hl]), Set.empty_union, hb.id_eq]
  obtain ⟨ce, hce, -, hpar, hcpath, hcont⟩ := hb.element
  exact
    { entry_eq := hb.id_eq
      sound := hset ▸ hb.sound
      element := ⟨ce, hce, hpar, hcpath, Content.isContainer_iff.1 hcont⟩
      list := by rw [hb.older hid, hlink, he]
      older := fun hx => by rw [hb.older hx, hlink]
      rooted := hb.rooted
      size_lt := hb.size_lt
      madeKeys := hb.madeKeys }

/-- Building the entry of a list that is there; if that fails, all elements are as they were. -/
theorem ensures_buildEntry (h : Sound t ∅) (he : t.element? id = some e)
    (hl : e.content = .list l) :
    (build (.container l.schema.entry .empty) (entrySpec id e path)).Ensures t
      (t.Entering id e path) fun _ t' => Sound t' ∅ ∧ t.Restores t' := by
  have hdistinct : (Schema.container l.schema.entry .empty).Distinct :=
    Schema.distinct_container.2 (h.distinct he hl)
  exact (ensures_build _ hdistinct h (fits_entrySpec he hl path)).mono
    (fun _ _ hb => hb.entering he hl) fun _ _ hf => hf

/-- An entry is younger than its list. -/
theorem Entering.index_lt {entry : ElementId} (h : t.Entering id e path entry t')
    (he : t.element? id = some e) : id.index < entry.index := by
  rw [h.entry_eq]
  exact index_lt_of_element? he

/-- The marks above a new entry can be read. -/
theorem Entering.exists_marks {entry : ElementId} (h : t.Entering id e path entry t')
    (he : t.element? id = some e) : ∃ before, t'.marks id = .ok before :=
  exists_marksFrom h.sound h.list (fun _ hx => hx ▸ h.index_lt he) (Nat.lt_succ_self _)

/-- What is left of a list after the key of an entry was assigned. -/
theorem Shrinks.list (h : t.Shrinks t') {e' : Element} (he : t.element? id = some e)
    (hl : e.content = .list l) (he' : t'.element? id = some e') :
    ∃ members, e'.content = .list { l with members } ∧ Assoc.keys members ⊆ l.keys := by
  obtain ⟨e₀, he₀, hs⟩ := h.element he'
  obtain rfl : e = e₀ := Option.some.inj (he.symm.trans he₀)
  have hsub := hs.links.subset
  rw [hl] at hsub
  refine ⟨_, Content.eq_list_of_bare ?_, List.map_subset Prod.fst hsub⟩
  rw [Element.content_of_bare hs.bare, hl]

/-- Putting a complete entry into its list; a made-up key counts from then on. -/
theorem Sound.insertEntry (h : Sound t {x}) {key : String} {ce : Element}
    {f : Element → Element} {n : Nat} (he : t.element? id = some e) (hl : e.content = .list l)
    (hf : f e = { e with content := .list (l.insert key x) }) (hc : t.element? x = some ce)
    (hpar : ce.parent = some id) (hcont : ce.content = .container)
    (hpath : l.IsEntryPath e.path key ce.path)
    (hmade : l.schema.key.isKeyless = true → key = madeKey t.madeKeys ∧ t.madeKeys < n)
    (hk : l.schema.key.isKeyless = false → key ∉ l.keys) (hn : t.madeKeys ≤ n) :
    Sound { t.modifyElement id f with madeKeys := n } ∅ := by
  have hnew : key ∉ l.keys := by
    cases hkl : l.schema.key.isKeyless with
    | false => exact hk hkl
    | true =>
      intro hm
      obtain ⟨m, hm, hkey⟩ := h.madeKeys he hl hkl hm
      have heq := madeKey_injective ((hmade hkl).1.symm.trans hkey)
      omega
  have hins := (h.makeKeys hn).enlist he hl hf hnew (fun hkl => ⟨_, (hmade hkl).2, (hmade hkl).1⟩)
    hc rfl hpar hcont hpath
  rw [Set.sdiff_self] at hins
  exact hins

/-- After its key was assigned, a new entry can be put into the list, if that is there. -/
theorem Entering.sound_enlisted {entry : ElementId} {t₁ t₂ : Tree} {e₂ : Element}
    {key : Option String} {key' : String} {parts : List String}
    (h : t.Entering id e path entry t₁) (hl : e.content = .list l)
    (hkey : entryKey l e.path t.madeKeys key = .ok (key', parts, path))
    (hs : t₁.Shrinks t₂) (h₂ : Sound t₂ {entry}) (he₂ : t₂.element? id = some e₂) :
    Sound (t₂.enlisted id l key' entry) ∅ := by
  obtain ⟨hpath, hkeyless, hkeyed⟩ := entryKey_spec hkey
  obtain ⟨members, hl₂, hkeys⟩ := hs.list h.list hl he₂
  obtain ⟨ce, hce, hpar, hcpath, hcont⟩ := h.element
  obtain ⟨ce₂, q, hce₂, -⟩ := h₂.pending rfl
  obtain ⟨ce', hce', hsce⟩ := hs.element hce₂
  obtain rfl : ce = ce' := Option.some.inj (hce.symm.trans hce')
  obtain ⟨e', he', hse⟩ := hs.element he₂
  obtain rfl : e = e' := Option.some.inj (h.list.symm.trans he')
  have hmade : t₂.madeKeys = t.madeKeys := hs.madeKeys.trans h.madeKeys
  have hins : ∀ {n}, (l.schema.key.isKeyless = true → t₂.madeKeys < n) → t₂.madeKeys ≤ n →
      Sound { t₂.modifyElement id (relist (·.insert key' entry)) with madeKeys := n } ∅ := by
    intro n hkl hle
    refine h₂.insertEntry he₂ hl₂ (relist_of_list hl₂) hce₂ ?_ ?_ ?_ (fun hk => ⟨?_, hkl hk⟩) ?_ hle
    · rw [Element.parent_of_bare hsce.bare, hpar]
    · exact hsce.container.2 hcont
    · rw [Element.path_of_bare hsce.bare, Element.path_of_bare hse.bare, hcpath]
      exact hpath
    · rw [hmade]
      exact (hkeyless hk).1
    · intro hk hm
      exact (hkeyed hk).1 (hkeys hm)
  unfold enlisted
  split
  · exact hins (fun _ => Nat.lt_succ_self _) (Nat.le_succ _)
  · next hk => exact hins (fun hkl => absurd hkl hk) (Nat.le_refl _)

end

/-- Assigning the key of a new entry either leaves the entry pending in a list that is
still there, or takes it back. -/
theorem sound_tryAssignKey {entry : ElementId} {parts : List (String × String)}
    {before : List (ElementId × Bool)} (h : Sound t {entry}) (he : t.element? entry = some e)
    (hid : e.parent = some id) (hlist : (t.element? id).isSome) :
    (tryAssignKey entry parts before).Ensures t
      (fun _ t' => Sound t' {entry} ∧ t.Shrinks t' ∧ (t'.element? id).isSome)
      fun _ t' => Sound t' ∅ := by
  rw [tryAssignKey, ensures_tryCatch]
  have hsound := ((frameStable_sound {entry}).assignStable.assignKey entry parts).ensures t
  have hshrinks := (shrinks_assignKey entry parts).ensures t
  have hsome : (assignKey entry parts).Ensures t (fun _ t' => (t'.element? id).isSome)
      fun _ _ => True := by
    by_cases hne : parts = []
    · subst hne
      exact hlist
    · exact isSome_of_assignKey h hne he hid
  refine ((hsound.and hshrinks).and hsome).mono (fun _ t' ht => ?_) fun err t' ht => ?_
  · exact ⟨ht.1.1 h, ht.1.2, ht.2⟩
  · have hrm := (ht.1.1 h).removePending (Set.mem_singleton entry)
    rw [Set.sdiff_self] at hrm
    refine (hrm.mono (fun _ _ hd => hd.1) fun _ _ hf => hf.elim).bind fun _ t'' hd => ?_
    have hmarks := ((frameStable_sound ∅).assignStable.restoreMarks before).ensures t''
    exact (hmarks.mono (fun _ _ hk => hk hd) fun _ _ hk => hk hd).bind fun _ _ hk => hk

/-- Adding an entry keeps the structure sound, whether it succeeds or fails. -/
theorem sound_addEntry (h : Sound t ∅) (id : ElementId) (key : Option String) :
    (addEntry id key).Ensures t (fun _ t' => Sound t' ∅) fun _ t' => Sound t' ∅ := by
  refine ensures_addEntry (fun _ => h) fun {p e l key' parts path} hp he hl hkey => ?_
  have hgood := (frameStable_sound ∅).plan h hp
  refine (ensures_buildEntry h he hl).mono (fun entry t₁ hent => ?_) fun _ _ hf => hf.1
  obtain ⟨before, hbefore⟩ := hent.exists_marks he
  refine ⟨fun err herr => ?_, fun before' _ => ?_⟩
  · rw [hbefore] at herr
    cases herr
  obtain ⟨ce, hce, hpar, -⟩ := hent.element
  have htry : (tryAssignKey entry (l.schema.key.fields.zip parts) before').Ensures t₁ _ _ :=
    sound_tryAssignKey hent.sound hce hpar (by rw [hent.list]; rfl)
  refine htry.mono (fun _ t₂ h₂ => ?_) fun _ _ hf => hf
  obtain ⟨h₂, hs, hsome⟩ := h₂
  refine ⟨fun hnone => ?_, fun e₂ he₂ => ?_⟩
  · rw [hnone] at hsome
    cases hsome
  have h₃ := hent.sound_enlisted hl hkey hs h₂ he₂
  have hcommit :=
    ((frameStable_sound ∅).assignStable.commit hgood).ensures (t₂.enlisted id l key' entry)
  exact hcommit.mono (fun _ _ hk => hk h₃) fun _ _ hk => hk h₃

/-- Adding an entry leaves a sound tree, whether it succeeds or fails. -/
theorem sound_add (id : ElementId) (key : Option String) :
    Leads (Keeping (Sound · ∅)) (add id key) :=
  leads_add (fun event h => h.sameFrame (sameFrame_tell _ event))
    (leads_keeping_iff.2 fun _ h => sound_addEntry h id key)

/-! ## Deleting -/

/-- Fewer entries are fewer links. -/
theorem shrinks_withList {l rest : KeyedList} (he : t.element? id = some e)
    (hl : e.content = .list l) (hschema : rest.schema = l.schema)
    (hsub : rest.members.Subperm l.members) : t.Shrinks (t.withList id rest) :=
  shrinks_unlink he hl hsub (by rw [relist_of_list hl, ← hschema])

/-- An entry that is taken out of its list is pending. -/
theorem Sound.takeEntry {l rest : KeyedList} {key : String} {entry : ElementId} (h : Sound t ∅)
    (he : t.element? id = some e) (hl : e.content = .list l)
    (htake : l.take? key = some (entry, rest)) : Sound (t.withList id rest) {entry} := by
  obtain ⟨hschema, hperm⟩ := KeyedList.perm_of_take (h.keys he hl) htake
  have hrest : rest = { l with members := rest.members } := by
    obtain ⟨schema, members⟩ := rest
    rw [← hschema]
  have hsub : rest.members.Subperm l.members :=
    (List.sublist_cons_self _ _).subperm.trans hperm.symm.subperm
  have hun := h.unlink he hl hsub (f := relist fun _ => rest) (by rw [relist_of_list hl, ← hrest])
  have hnodup := ((hperm.map Prod.snd).nodup_iff.1 (h.entries he hl))
  have hset : ∅ ∪ { c | c ∈ l.entries ∧ c ∉ rest.members.map Prod.snd } = {entry} := by
    rw [Set.empty_union]
    ext c
    have hmem : c ∈ l.entries ↔ c = entry ∨ c ∈ rest.members.map Prod.snd := by
      rw [KeyedList.entries, (hperm.map Prod.snd).mem_iff, List.map_cons, List.mem_cons]
    rw [Set.mem_ofPred_eq, hmem, Set.mem_singleton_iff]
    rw [List.map_cons, List.nodup_cons] at hnodup
    constructor
    · intro hc
      exact hc.1.resolve_right hc.2
    · intro hc
      subst hc
      exact ⟨.inl rfl, hnodup.1⟩
  rw [hset] at hun
  exact hun

/-- So does deleting one. -/
theorem sound_delete (id : ElementId) (key : String) :
    Leads (Keeping (Sound · ∅)) (delete id key) := by
  refine leads_keeping_iff.2 fun t h => ensures_delete (fun _ => h) fun {e} he => ?_
  have h₁ : Sound (t.tell (.deleting e.path key)) ∅ := h.sameFrame (sameFrame_tell t _)
  refine ⟨fun _ => h₁, fun {p l entry rest} hp hl htake => ?_⟩
  have hgood := (frameStable_sound ∅).plan h₁ hp
  have hrm := (h₁.takeEntry (t := t.tell (.deleting e.path key)) he hl htake).removePending
    (Set.mem_singleton entry)
  rw [Set.sdiff_self] at hrm
  refine hrm.mono (fun _ t₂ h₂ => ?_) fun _ _ hf => hf.elim
  have hcommit := ((frameStable_sound ∅).assignStable.commit hgood).ensures t₂
  exact hcommit.mono (fun _ t₃ hk => (hk h₂.1).sameFrame (sameFrame_tell t₃ _))
    fun _ _ hk => hk h₂.1

/-! ## Instantiating -/

/-- So does instantiating a schema, at a place that is free. -/
theorem sound_instantiate {schema : Schema} {spec : ElementSpec} (hd : schema.Distinct)
    (hfit : t.Fits spec) (hpend : t.pendingFor spec = ∅) (h : Sound t ∅) :
    Sound ((instantiate schema spec).on t).2 ∅ := by
  refine rel_of_ensures (R := fun _ t' => Sound t' ∅) ?_
  rw [instantiate, ensures_changing_bind]
  generalize ht : t.tell (.instantiating spec.name) = t₁
  have h₁ : Sound t₁ ∅ := ht ▸ h.sameFrame (sameFrame_tell t _)
  have hfit₁ : t₁.Fits spec := ht ▸ ⟨hfit.hasParent, hfit.fresh⟩
  have hpend₁ : t₁.pendingFor spec = ∅ := ht ▸ hpend
  refine ((ensures_build schema hd h₁ hfit₁).mono (fun _ _ hb => hb) fun _ _ hf => hf.1).bind
    fun id t₂ hb => ?_
  have h₂ := hb.sound
  rw [hpend₁, Set.union_empty] at h₂
  rw [ensures_reading_bind]
  refine ⟨fun _ _ => ?_, fun _ _ => h₂⟩
  rw [ensures_get_bind]
  refine ⟨fun e _ => ?_, fun _ => h₂⟩
  rw [ensures_changing_bind]
  exact h₂.sameFrame (sameFrame_tell t₂ _)

end Tree

end DataTree
