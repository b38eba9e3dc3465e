import DataTree.Proofs.Assignment
import DataTree.Proofs.Building

/-!
# DataTree.Proofs.Entries

Invariants of adding and deleting entries of lists, out of those of assigning and of
building.
-/

namespace DataTree.Tree

open Edit Outcome

/-- What holds the list is an element. -/
theorem listFor_eq_ok_iff {t : Tree} {id : ElementId} {op : String} {l : KeyedList} :
    t.listFor op id = .ok l ↔ ∃ e, t.element? id = some e ∧ e.content = .list l := by
  rw [listFor, bind_eq_ok]
  constructor
  · intro h
    obtain ⟨e, he, h⟩ := h
    rw [element_eq_ok_iff] at he
    split at h
    · next l' hl =>
      obtain rfl := pure_eq_ok.1 h
      exact ⟨e, he, hl⟩
    · exact absurd h throw_ne_ok
  · intro h
    obtain ⟨e, he, hl⟩ := h
    exact ⟨e, element_eq_ok_iff.2 he, by rw [hl]; rfl⟩

/-- The element with another list, if it holds one. -/
def relist (f : KeyedList → KeyedList) (e : Element) : Element :=
  match e.content with
  | .list l => { e with content := .list (f l) }
  | _ => e

theorem relist_of_list {f : KeyedList → KeyedList} {e : Element} {l : KeyedList}
    (hl : e.content = .list l) : relist f e = { e with content := .list (f l) } := by
  rw [relist, hl]

/-- What stands when a list was changed stood there before, and only the list differs. -/
theorem relist_cases {t : Tree} {id x : ElementId} {f : KeyedList → KeyedList} {e' : Element}
    (h : (t.modifyElement id (relist f)).element? x = some e') :
    ∃ e, t.element? x = some e ∧
      (e' = e ∨ (x = id ∧ ∃ l, e.content = .list l ∧ e' = { e with content := .list (f l) })) := by
  obtain ⟨e, he, ⟨rfl, rfl⟩ | ⟨-, rfl⟩⟩ := modifyElement_cases h
  · refine ⟨e, he, ?_⟩
    unfold relist
    split
    · next l hl => exact .inr ⟨rfl, l, hl, rfl⟩
    · exact .inl rfl
  · exact ⟨e', he, .inl rfl⟩

/-- Changing a list is changing its element. -/
theorem updateList_eq (id : ElementId) (f : KeyedList → KeyedList) :
    updateList id f = update id (relist f) := rfl

/-! ## Adding -/

/-- The tree with an entry put into the list `id`; a made-up key counts from then on. -/
def enlisted (t : Tree) (id : ElementId) (l : KeyedList) (key : String) (entry : ElementId) :
    Tree :=
  let t' := t.modifyElement id (relist (·.insert key entry))
  if l.schema.key.isKeyless then { t' with madeKeys := t'.madeKeys + 1 } else t'

/-- Putting an entry into a list changes the list alone. -/
theorem element?_enlisted (t : Tree) (id : ElementId) (l : KeyedList) (key : String)
    (entry x : ElementId) : (t.enlisted id l key entry).element? x =
      (t.modifyElement id (relist (·.insert key entry))).element? x := by
  unfold enlisted
  simp only
  split <;> rfl

theorem size_slots_enlisted (t : Tree) (id : ElementId) (l : KeyedList) (key : String)
    (entry : ElementId) : (t.enlisted id l key entry).slots.size = t.slots.size := by
  unfold enlisted
  simp only
  split <;> exact size_slots_modifyElement t id _

/-- What building the entry of a list starts from. -/
def entrySpec (id : ElementId) (e : Element) (path : String) : ElementSpec :=
  { name := e.name, parent := some id, registers := e.registers, registerPath := some path }

/-- Try to assign the key of a new entry; if a part is refused, everything goes back. -/
def tryAssignKey (entry : ElementId) (parts : List (String × String))
    (before : List (ElementId × Bool)) : Edit Unit :=
  tryCatch (assignKey entry parts) fun err => do
    removeSubtree entry
    restoreMarks before
    throw err

/-- Adding an entry, step by step: it gets a key, it is built, its key is assigned, it is put into
the list, and the plan of the list is carried out. -/
theorem ensures_addEntry_of_stop {t : Tree} {id : ElementId} {key : Option String}
    {done : String → Tree → Prop} {failed : Error → Tree → Prop}
    (stop : (∀ {p e l r}, t.plan id none = .ok p → t.element? id = some e → e.content = .list l →
      entryKey l e.path t.madeKeys key ≠ .ok r) → ∀ err, failed err t)
    (go : ∀ {p e l key' parts path}, t.plan id none = .ok p → t.element? id = some e →
      e.content = .list l → entryKey l e.path t.madeKeys key = .ok (key', parts, path) →
      (build (.container l.schema.entry .empty) (entrySpec id e path)).Ensures t
        (fun entry t₁ => (∀ err, t₁.marks id = .error err → failed err t₁) ∧
          ∀ before, t₁.marks id = .ok before →
            (tryAssignKey entry (l.schema.key.fields.zip parts) before).Ensures t₁
              (fun _ t₂ => (t₂.element? id = none → failed (.elementNotFound id) t₂) ∧
                (∀ e₂, t₂.element? id = some e₂ →
                  (commit p).Ensures (t₂.enlisted id l key' entry) (fun _ => done key') failed))
              failed)
        failed) : (addEntry id key).Ensures t done failed := by
  rw [addEntry, ensures_reading_bind]
  refine ⟨fun p hp => ?_, fun err hno => stop (fun hp => by rw [hno] at hp; cases hp) err⟩
  rw [ensures_get_bind]
  refine ⟨fun e he => ?_, fun hno => stop (fun _ he => by rw [hno] at he; cases he) _⟩
  rw [ensures_reading_bind]
  refine ⟨fun l hl => ?_, fun err hno => stop (fun _ he hl => ?_) err⟩
  · have hlist : e.content = .list l := by
      obtain ⟨e', he', hl⟩ := listFor_eq_ok_iff.1 hl
      obtain rfl : e = e' := Option.some.inj (he.symm.trans he')
      exact hl
    rw [ensures_reading_bind]
    refine ⟨fun t₀ ht₀ => ?_, fun _ hno => by cases hno⟩
    obtain rfl : t = t₀ := Except.ok.inj ht₀
    rw [ensures_ofExcept_bind]
    refine ⟨fun r hr => ?_, fun err hno => stop (fun _ he' hl' => ?_) err⟩
    · obtain ⟨key', parts, path⟩ := r
      refine (go hp he hlist hr).bind fun entry t₁ h₁ => ?_
      rw [ensures_reading_bind]
      refine ⟨fun before hbefore => ?_, fun err herr => h₁.1 err herr⟩
      refine (h₁.2 before hbefore).bind fun _ t₂ h₂ => ?_
      rw [ensures_bind, updateList_eq, ensures_update]
      refine ⟨fun e₂ he₂ => ?_, h₂.1⟩
      have hcommit := h₂.2 e₂ he₂
      unfold enlisted at hcommit
      extract_lets rest
      split
      · next hk =>
        rw [if_pos hk] at hcommit
        rw [ensures_changing_bind]
        exact hcommit.bind fun _ _ hdone => hdone
      · next hk =>
        rw [if_neg hk] at hcommit
        exact hcommit.bind fun _ _ hdone => hdone
    · obtain rfl := Option.some.inj (he.symm.trans he')
      obtain rfl := Content.list.inj (hlist.symm.trans hl')
      rw [hno]
      simp
  · rw [keyedList, listFor_eq_ok_iff.2 ⟨_, he, hl⟩] at hno
    cases hno

/-- The same where stopping before anything has happened does no harm. -/
theorem ensures_addEntry {t : Tree} {id : ElementId} {key : Option String}
    {done : String → Tree → Prop} {failed : Error → Tree → Prop} (stop : ∀ err, failed err t)
    (go : ∀ {p e l key' parts path}, t.plan id none = .ok p → t.element? id = some e →
      e.content = .list l → entryKey l e.path t.madeKeys key = .ok (key', parts, path) →
      (build (.container l.schema.entry .empty) (entrySpec id e path)).Ensures t
        (fun entry t₁ => (∀ err, t₁.marks id = .error err → failed err t₁) ∧
          ∀ before, t₁.marks id = .ok before →
            (tryAssignKey entry (l.schema.key.fields.zip parts) before).Ensures t₁
              (fun _ t₂ => (t₂.element? id = none → failed (.elementNotFound id) t₂) ∧
                (∀ e₂, t₂.element? id = some e₂ →
                  (commit p).Ensures (t₂.enlisted id l key' entry) (fun _ => done key') failed))
              failed)
        failed) : (addEntry id key).Ensures t done failed :=
  ensures_addEntry_of_stop (fun _ => stop) go

/-- Adding tells about the entry before and after; what is not a list stops it at once. -/
theorem ensures_add {t : Tree} {id : ElementId} {key : Option String} {done : String → Tree → Prop}
    {failed : Error → Tree → Prop}
    (stop : (∀ {e l}, t.element? id = some e → e.content ≠ .list l) → ∀ err, failed err t)
    (go : ∀ {e l}, t.element? id = some e → e.content = .list l →
      (addEntry id key).Ensures (t.tell (.adding e.path))
        (fun key' t' => done key' (t'.tell (.added e.path key'))) failed) :
    (add id key).Ensures t done failed := by
  rw [Tree.add, listToChange, ensures_reading_bind]
  refine ⟨fun l hl => ?_, fun err hno => stop (fun he hl => ?_) err⟩
  · obtain ⟨e, he, hlist⟩ := listFor_eq_ok_iff.1 hl
    rw [ensures_get_bind_of he]
    rw [ensures_changing_bind]
    refine ((go he hlist).mono (fun _ _ hd => hd) fun _ _ hf => hf).bind fun key' t' hd => ?_
    rw [ensures_changing_bind]
    exact hd
  · rw [listFor_eq_ok_iff.2 ⟨_, he, hl⟩] at hno
    cases hno

/-- What adding the entry keeps, and events that do not tell of the registry do not matter to,
adding keeps. -/
theorem leads_add_of_notes {I : Tree → Prop} {id : ElementId} {key : Option String}
    (tell : ∀ {t} event, event.isTraffic = false → I t → I (t.tell event))
    (h : Leads (Keeping I) (addEntry id key)) : Leads (Keeping I) (add id key) := by
  refine leads_keeping_iff.2 fun t ht => ensures_add (fun _ _ => ht) fun _ _ => ?_
  exact (h.keeps (tell _ rfl ht)).mono (fun _ _ ht' => tell _ rfl ht') fun _ _ ht' => ht'

/-- What adding an entry step by step keeps is kept by adding, which tells of it besides. -/
theorem leads_add {I : Tree → Prop} {id : ElementId} {key : Option String}
    (tell : ∀ {t} event, I t → I (t.tell event)) (h : Leads (Keeping I) (addEntry id key)) :
    Leads (Keeping I) (add id key) := leads_add_of_notes (fun event _ => tell event) h

/-! ## Deleting -/

/-- The tree with other entries in the list `id`. -/
def withList (t : Tree) (id : ElementId) (l : KeyedList) : Tree :=
  t.modifyElement id (relist fun _ => l)

/-- Deleting an entry, step by step: it is taken out of the list and removed, and the plan of
the list is carried out. -/
theorem ensures_delete {t : Tree} {id : ElementId} {key : String} {done : Unit → Tree → Prop}
    {failed : Error → Tree → Prop} (stop : ∀ err, failed err t)
    (go : ∀ {e}, t.element? id = some e →
      (∀ err, failed err (t.tell (.deleting e.path key))) ∧
        ∀ {p l entry rest}, (t.tell (.deleting e.path key)).plan id none = .ok p →
          e.content = .list l → l.take? key = some (entry, rest) →
          (removeSubtree entry).Ensures ((t.tell (.deleting e.path key)).withList id rest)
            (fun _ t₂ => (commit p).Ensures t₂
              (fun _ t₃ => done () (t₃.tell (.deleted e.path key))) failed) failed) :
    (delete id key).Ensures t done failed := by
  rw [delete, listToChange, ensures_reading_bind]
  refine ⟨fun _ _ => ?_, fun err _ => stop err⟩
  rw [ensures_get_bind]
  refine ⟨fun e he => ?_, fun _ => stop _⟩
  obtain ⟨hstop, hgo⟩ := go he
  rw [ensures_changing_bind, ensures_reading_bind]
  refine ⟨fun p hp => ?_, fun err _ => hstop err⟩
  rw [ensures_reading_bind]
  refine ⟨fun l hl => ?_, fun err _ => hstop err⟩
  obtain ⟨e₁, he₁, hl⟩ := listFor_eq_ok_iff.1 hl
  obtain rfl : e = e₁ := Option.some.inj (he.symm.trans he₁)
  split
  · exact hstop _
  · next entry rest htake =>
    rw [ensures_bind, updateList_eq, ensures_update]
    refine ⟨fun _ _ => ?_, fun _ => hstop _⟩
    rw [ensures_bind]
    refine (hgo hp hl htake).mono (fun _ t₂ h₂ => ?_) fun _ _ hf => hf
    exact h₂.bind fun _ _ hd => hd

/-! ## Invariants of both -/

/-- What makes an invariant one of adding and deleting, but for what these tell: in addition to
assigning, it is kept by building an entry, by removing, and by changing the members of a list. -/
structure EntryKeeping (I : Tree → Prop) (good : Unset → Prop) : Prop extends
    AssignStable I good where
  build : ∀ {t id e l path}, I t → t.element? id = some e → e.content = .list l →
    I ((build (.container l.schema.entry .empty)
      { name := e.name, parent := some id, registers := e.registers,
        registerPath := some path }).on t).2
  remove : ∀ id, Leads (Keeping I) (removeSubtree id)
  members : ∀ {t id f}, I t →
    (∀ e l, t.element? id = some e → e.content = .list l → (f l).schema = l.schema) →
    I ((updateList id f).on t).2
  makeKeys : ∀ {t}, I t → I { t with madeKeys := t.madeKeys + 1 }

/-- The same for an invariant that events do not matter to. -/
structure EntryStable (I : Tree → Prop) (good : Unset → Prop) : Prop extends
    EntryKeeping I good where
  tell : ∀ {t} event, I t → I (t.tell event)

namespace EntryKeeping

variable {I : Tree → Prop} {good : Unset → Prop}

/-- Assigning a key keeps it, and so does taking the entry back. -/
theorem tryAssignKey (h : EntryKeeping I good) (entry : ElementId) (parts : List (String × String))
    (before : List (ElementId × Bool)) : Leads (Keeping I) (tryAssignKey entry parts before) :=
  (h.assignKey entry parts).tryCatch fun err =>
    (h.remove entry).bind fun _ => (h.restoreMarks before).bind fun _ => leads_throw err

/-- **Adding an entry keeps an invariant** that each of its steps keeps. -/
theorem addEntry (h : EntryKeeping I good) (id : ElementId) (key : Option String) :
    Leads (Keeping I) (addEntry id key) := by
  refine leads_keeping_iff.2 fun t ht => ensures_addEntry (fun _ => ht)
    fun {p e l key' parts path} hp he hl _ => ?_
  have hgood := h.plan ht hp
  refine (ensures_of_rel (R := fun _ => I) (h.build ht he hl)).mono (fun entry t₁ ht₁ => ?_)
    fun _ _ hi => hi
  refine ⟨fun _ _ => ht₁, fun before _ => ?_⟩
  refine ((h.tryAssignKey entry (l.schema.key.fields.zip parts) before).keeps ht₁).mono
    (fun _ t₂ ht₂ => ⟨fun _ => ht₂, fun e₂ he₂ => ?_⟩) fun _ _ hi => hi
  refine (h.commit hgood).keeps ?_
  have hinsert : I ((updateList id fun l => l.insert key' entry).on t₂).2 :=
    h.members ht₂ fun _ _ _ _ => rfl
  rw [updateList_eq, on_update, element, he₂] at hinsert
  unfold enlisted
  split
  · exact h.makeKeys hinsert
  · exact hinsert

/-- So does adding with its events. -/
theorem add (h : EntryKeeping I good)
    (tell : ∀ {t} event, event.isTraffic = false → I t → I (t.tell event)) (id : ElementId)
    (key : Option String) : Leads (Keeping I) (add id key) :=
  leads_add_of_notes tell (h.addEntry id key)

/-- So does deleting, with its events. -/
theorem delete (h : EntryKeeping I good)
    (tell : ∀ {t} event, event.isTraffic = false → I t → I (t.tell event)) (id : ElementId)
    (key : String) : Leads (Keeping I) (delete id key) := by
  refine leads_keeping_iff.2 fun t ht => ensures_delete (fun _ => ht) fun {e} he => ?_
  have ht₁ := tell (.deleting e.path key) rfl ht
  refine ⟨fun _ => ht₁, fun {p l entry rest} hp hl htake => ?_⟩
  have hrest : rest.schema = l.schema := by
    obtain ⟨_, -, htake⟩ := Option.map_eq_some_iff.1 htake
    obtain ⟨-, rfl⟩ := Prod.mk.inj htake
    rfl
  have htaken := h.members (f := fun _ => rest) ht₁ fun e' l' he' hl' => by
    obtain rfl : e = e' := Option.some.inj (he.symm.trans he')
    obtain rfl : l = l' := Content.list.inj (hl.symm.trans hl')
    exact hrest
  have hel : (t.tell (.deleting e.path key)).element? id = some e := he
  rw [updateList_eq, on_update, element, hel] at htaken
  refine ((h.remove entry).keeps htaken).mono (fun _ t₂ ht₂ => ?_) fun _ _ hi => hi
  exact ((h.commit (h.plan ht₁ hp)).keeps ht₂).mono (fun _ _ hi => tell _ rfl hi) fun _ _ hi => hi

end EntryKeeping

namespace EntryStable

variable {I : Tree → Prop} {good : Unset → Prop}

theorem add (h : EntryStable I good) (id : ElementId) (key : Option String) :
    Leads (Keeping I) (add id key) := h.toEntryKeeping.add (fun event _ => h.tell event) id key

theorem delete (h : EntryStable I good) (id : ElementId) (key : String) :
    Leads (Keeping I) (delete id key) :=
  h.toEntryKeeping.delete (fun event _ => h.tell event) id key

end EntryStable

end DataTree.Tree
