import DataTree.Proofs.Ledger.Upholds
import DataTree.Proofs.Rollback.Session

/-!
# DataTree.Proofs.Ledger.Adding

What adding an entry does to the lists of a tree.

An entry goes to the end of its list, and all others stay where they are.  Where all choices
are apart, the plan of the list does not take the list itself, so that an entry that was added
is there in the end (`enters_add`).  If an entry is not added, the list is what it was, unless
the plan was stale before: then the entry may be in the list though adding it has failed.
-/

namespace DataTree.Tree

open Edit Outcome

variable {t t₁ t₂ t₃ t' : Tree} {id entry x y : ElementId} {e : Element} {l : KeyedList}
  {path : String} {p : Plan} {before : List (ElementId × Bool)} {schema : Blueprint}
  {node : ElementId → Schema} {A : Tree → Tree → Prop} {result : Except Error String}

/-! ## How adding goes -/

/-- How adding an entry to the list `id` goes, if `A` holds from where the entry has been built
to where its key has been assigned: it stops before anything happens, the key is refused and the
entry is taken back, or the entry is put into the list and the plan of the list decides. -/
inductive Adds (schema : Blueprint) (A : Tree → Tree → Prop) (t : Tree) (id : ElementId)
    (result : Except Error String) (t' : Tree) : Prop
  | stopped (hno : ∀ key, result ≠ .ok key) (h : ∀ x, t'.element? x = t.element? x)
  | refused {e : Element} {l : KeyedList} {path : String} {entry : ElementId}
      {before : List (ElementId × Bool)}
      {t₁ t₂ : Tree} (hno : ∀ key, result ≠ .ok key) (h : t.Begun id e l path entry before t₁)
      (hlaid : t₁.Laid (.container l.schema.entry .empty) none entry) (hA : A t₁ t₂)
      (hback : TakenBack entry before t₂ t')
  | entered {e : Element} {l : KeyedList} {path key : String} {entry : ElementId}
      {before : List (ElementId × Bool)} {t₁ t₂ : Tree} {p : Plan} {r : Except Error Unit}
      (h : t.Begun id e l path entry before t₁)
      (hlaid : t₁.Laid (.container l.schema.entry .empty) none entry) (hA : A t₁ t₂)
      (hret : t₁.Retains t₂)
      (hlist : ∃ members, t₂.held id = some (.list { l with members })) (hnew : key ∉ l.keys)
      (hp : t.plan id none = .ok p) (hs : Sound (t₂.enlisted id l key entry) ∅)
      (hp' : (t₂.enlisted id l key entry).plan id none = .ok p)
      (hf : ∃ node', (t₂.enlisted id l key entry).Follows schema node')
      (hrun : (commit p).on (t₂.enlisted id l key entry) = (r, t'))
      (hresult : result = r.map fun _ => key)

/-- The key of a new entry is not among those of the list. -/
theorem Sound.not_mem_keys (h : Sound t ∅) (he : t.element? id = some e) (hl : e.content = .list l)
    {key : Option String} {key' : String} {parts : List String}
    (hkey : entryKey l e.path t.madeKeys key = .ok (key', parts, path)) : key' ∉ l.keys := by
  obtain ⟨-, hkeyless, hkeyed⟩ := entryKey_spec hkey
  cases hk : l.schema.key.isKeyless with
  | false => exact (hkeyed hk).1
  | true =>
    intro hm
    obtain ⟨n, hn, heq⟩ := h.madeKeys he hl hk hm
    have hmade := madeKey_injective ((hkeyless hk).1.symm.trans heq)
    omega

theorem adds_addEntry (hs : Sound t ∅) (hf : t.Follows schema node) (key : Option String)
    (hassign : ∀ {e l path entry before t₁} (parts : List String),
      t.Begun id e l path entry before t₁ →
      (assignKey entry (l.schema.key.fields.zip parts)).Ensures t₁ (fun _ => A t₁) fun _ => A t₁) :
    (addEntry id key).Ensures t (fun key' => t.Adds schema A id (.ok key'))
      fun err => t.Adds schema A id (.error err) := by
  have hno : ∀ (err : Error) (key : String),
      (Except.error err : Except Error String) ≠ .ok key := by
    rintro _ _ ⟨⟩
  refine ensures_addEntry (fun err => .stopped (hno err) fun _ => rfl)
    fun {p e l key' parts path} hp he hl hkey => ?_
  have hdistinct : (Schema.container l.schema.entry .empty).Distinct :=
    Schema.distinct_container.2 (hs.distinct he hl)
  obtain ⟨default, hid⟩ := hf.schema_eq he hl
  have hbuild := (((ensures_buildEntry hs he hl).and (raised_build _ _ t)).and
    (laid_build _ hdistinct hs (fits_entrySpec he hl path))).and
    (follows_build (.ofEntry l.schema) hf (awaits_entry he hl path))
  refine hbuild.mono (fun entry t₁ hb => ?_) fun err t' hb => .stopped (hno err) hb.1.1.1.2.element
  obtain ⟨⟨⟨hent, hraised⟩, hlaid⟩, node₁, hstands⟩ := hb
  obtain ⟨before, hbefore⟩ := hent.exists_marks he
  obtain ⟨hrec, -⟩ := recorded_of_marksFrom hent.sound.parent_lt hbefore
  have hbegun : t.Begun id e l path entry before t₁ :=
    ⟨he, hl, hent, hraised, hstands.follows.declared, hbefore⟩
  refine ⟨fun err herr => ?_, fun before' hbefore' => ?_⟩
  · rw [hbefore] at herr
    cases herr
  obtain rfl : before = before' := Except.ok.inj (hbefore.symm.trans hbefore')
  obtain ⟨ce, hce, hpar, -⟩ := hent.element
  have hkeeps := ((frameStable_retains t₁ {entry}).assignStable.assignKey entry
    (l.schema.key.fields.zip parts)).keeps ⟨hent.sound, hbegun.declared, refl_of Retains t₁⟩
  have htry :=
    (ensures_tryAssignKey ((hassign parts hbegun).and hkeeps) hent.sound hbegun.declared hent.rooted
    (hrec.older.imp fun h heq => by simp [heq] at h)).and
    (sound_tryAssignKey hent.sound hce hpar (by rw [hent.list]; rfl))
  refine htry.mono (fun _ t₂ h₂ => ?_) fun err t' hb => ?_
  · obtain ⟨⟨hA, -, -, hret⟩, hs₂, hshr, hsome⟩ := h₂
    refine ⟨fun hnone => ?_, fun e₂ he₂ => ?_⟩
    · rw [hnone] at hsome
      cases hsome
    obtain ⟨members, hl₂, -⟩ := hshr.list hent.list hl he₂
    have hs₃ := hent.sound_enlisted hl hkey hshr hs₂ he₂
    have hf₃ := (hstands.enlisted hid (index_lt_of_element? he) hshr key').follows
    have hbare :=
      ((hbegun.alike.bareTo (index_lt_of_element? he)).trans (hret.thins.bareTo id)).trans
      ((retains_enlisted t₂ id l key' entry).thins.bareTo id)
    have hp₃ := planFrom_of_bare hs₃ hbare
      (by rw [element?_enlisted, isSome_element?_modifyElement, he₂]; rfl) (fun _ hy => hy.elim) hp
    have hentered : ∀ {r t'}, (commit p).on (t₂.enlisted id l key' entry) = (r, t') →
        t.Adds schema A id (r.map fun _ => key') t' := fun hrun =>
      .entered hbegun hlaid hA hret ⟨members, held_eq_some_iff.2 ⟨e₂, he₂, hl₂⟩⟩
        (hs.not_mem_keys he hl hkey) hp hs₃ hp₃ ⟨node₁, hf₃⟩ hrun rfl
    exact ensures_iff.2 ⟨fun _ _ hrun => hentered hrun, fun _ _ hrun => hentered hrun⟩
  · obtain ⟨⟨_, t₂, ⟨hA, -⟩, hret, hback⟩, -⟩ := hb
    exact .refused (hno err) hbegun hlaid hA hback

/-! ## Other lists -/

/-- A list that is emptied is in a case, if it has not just been built. -/
def MayEmpty (t : Tree) (y : ElementId) : Prop := y.index < t.slots.size → t.InCase y

/-- What the list holds once the key of the entry has been assigned. -/
theorem Begun.upholds_assignKey (h : t.Begun id e l path entry before t₁) (hs : Sound t ∅)
    (pairs : List (String × String)) :
    (assignKey entry pairs).Ensures t₁ (fun _ => t₁.Upholds (t.MayEmpty y) y)
      fun _ => t₁.Upholds (t.MayEmpty y) y := by
  have hC : t₁.InCase y → t.MayEmpty y :=
    fun hc hlt => hc.older hs h.entering.sound (h.alike.bareTo hlt)
  exact (((frameStable_upholds h.entering.sound hC).assignStable.assignKey entry pairs).keeps
    ⟨h.entering.sound, h.declared, refl_of Shrinks t₁, refl_of (Upholds (t.MayEmpty y) y) t₁⟩).mono
    (fun _ _ h => h.2.2.2) fun _ _ h => h.2.2.2

/-- What taking the entry back leaves in a list. -/
theorem TakenBack.upholds {C : Prop} (h : TakenBack entry before t t') : t.Upholds C y t' := by
  by_cases hy : y.index < entry.index
  · exact upholds_of_held (h.held hy)
  · exact upholds_of_gone (h.gone (Nat.le_of_not_lt hy))

/-- What old elements know of themselves is the same until the plan of the list is carried out. -/
theorem Begun.bareTo (h : t.Begun id e l path entry before t₁) (hret : t₁.Retains t₂) (key : String)
    (hy : y.index < t.slots.size) : t.BareTo y (t₂.enlisted id l key entry) :=
  ((h.alike.bareTo hy).trans (hret.thins.bareTo y)).trans
    ((retains_enlisted t₂ id l key entry).thins.bareTo y)

/-- Lists that were there are upheld, and new ones are empty. -/
theorem Begun.of_upholds (h : t.Begun id e l path entry before t₁)
    (hlaid : t₁.Laid (.container l.schema.entry .empty) none entry)
    (hup : t₁.Upholds (t.MayEmpty y) y t') :
    (y.index < t.slots.size → t.Upholds (t.InCase y) y t') ∧
      (t.slots.size ≤ y.index → ∀ l', t'.held y = some (.list l') → l'.members = []) := by
  refine ⟨fun hy => ?_, fun hy l' hl' => ?_⟩
  · have hold : t.Upholds (t.InCase y) y t₁ := upholds_of_held (h.alike.held hy)
    exact trans_of (Upholds (t.InCase y) y) hold (hup.mono fun hm => hm hy)
  · obtain ⟨l₁, hl₁, -, hm⟩ := hup hl'
    obtain ⟨ye, hye, hcont⟩ := held_eq_some_iff.1 hl₁
    have hblank := hlaid.blank (h.index_eq ▸ hy) hye
    rw [hcont] at hblank
    have hnil : l₁.members = [] := Content.links_eq_nil (c := .list l₁) hblank
    obtain hm | ⟨hm, -⟩ := hm
    · rw [hm, hnil]
    · exact hm

/-- Adding an entry to another list. -/
theorem Adds.upholds (h : t.Adds schema (Upholds (t.MayEmpty y) y) id result t') (hs : Sound t ∅)
    (hne : y ≠ id) :
    (y.index < t.slots.size → t.Upholds (t.InCase y) y t') ∧
      (t.slots.size ≤ y.index → ∀ l', t'.held y = some (.list l') → l'.members = []) := by
  cases h with
  | stopped _ hel =>
    refine ⟨fun _ => upholds_of_held (held_congr (hel y)), fun hy l' hl' => ?_⟩
    rw [held, hel, element?_eq_none_of_size_le hy] at hl'
    cases hl'
  | refused _ h hlaid hA hback =>
    exact h.of_upholds hlaid (trans_of (Upholds (t.MayEmpty y) y) hA hback.upholds)
  | @entered e l path key entry before t₁ t₂ p _ h hlaid hA hret _ _ _ hs₃ hp₃ hf₃ hrun _ =>
    obtain ⟨node₃, hf₃⟩ := hf₃
    have h₃ : t₂.Upholds (t.MayEmpty y) y (t₂.enlisted id l key entry) := by
      refine upholds_of_held (held_congr ?_)
      rw [element?_enlisted, element?_modifyElement_of_ne hne]
    have hC : (t₂.enlisted id l key entry).InCase y → t.MayEmpty y := fun hc hlt =>
      hc.older hs hs₃ (h.bareTo hret key hlt)
    have h₄ := upholds_commit hs₃ hf₃.declared hC (hs₃.cased hp₃ hC)
    rw [hrun] at h₄
    have h₁₃ := trans_of (Upholds (t.MayEmpty y) y) hA h₃
    exact h.of_upholds hlaid (trans_of (Upholds (t.MayEmpty y) y) h₁₃ h₄)

/-! ## The list itself -/

/-- What no hook of a plan leads to holds what it held, whether the plan can be carried out or
not. -/
theorem held_commit_of_free (hs : Sound t ∅) (hd : t.Declared)
    (hgood : ∀ hook ∈ p.unsets, ∃ c, hook = .contents c) (hfree : t.Free p.unsets y) :
    ((commit p).on t).2.held y = t.held y := by
  refine rel_of_ensures (R := fun t t' => t'.held y = t.held y) (Ensures.bind
    (I := fun _ t₁ => t₁.held y = t.held y) ?_ fun _ t₁ h₁ => ?_)
  · refine (ran_runUnsets hs hd hgood).mono
      (fun _ _ hran => held_congr (hran.stays hfree)) fun _ t₁ hf => ?_
    obtain ⟨done, hsub, hran⟩ := hf
    exact held_congr (hran.stays fun c hm => hfree c (hsub hm))
  · exact ((sameData_markChanged p.marks).ensures t₁).mono (fun _ _ hsame => (hsame y).trans h₁)
      fun _ _ hsame => (hsame y).trans h₁

/-- If the plan of a list can not be carried out in the end, then it was stale before. -/
theorem Follows.stale_of_stuck {err : Error} (hf : t.Follows schema node) (hs : Sound t ∅)
    (hp : t.plan id none = .ok p) (hs₃ : Sound t₃ ∅) (hd₃ : t₃.Declared)
    (hp₃ : t₃.plan id none = .ok p) (hret : ∀ {x e₃}, x.index ≤ id.index → t₃.element? x = some e₃ →
      ∃ e, t.element? x = some e ∧ e₃.bare = e.bare ∧ e₃.children = e.children)
    (hfree : t₃.Free p.unsets id) (hrun : (commit p).on t₃ = (.error err, t')) : t.Stale id := by
  obtain ⟨b, hm, hb⟩ | ⟨x, hx, -, hlost⟩ := (ensures_commit_of_plan hs₃ hd₃ hp₃).of_error hrun
  · -- The container that the hook belongs to has lost no children.
    refine ⟨p, b, hp, hm, ?_⟩
    rw [← Option.not_isSome_iff_eq_none]
    intro hsome
    obtain ⟨be, hbe⟩ := Option.isSome_iff_exists.1 hsome
    obtain ⟨q, qe₃, -, k, m, hq, hqe₃, hhas, -, hget, -⟩ :=
      exists_rival_of_planFrom hs₃ (fun _ hy => hy.elim) hp₃ hm
    obtain ⟨qe, hqe, hbare, hch⟩ := hret (hs₃.index_le_of_under hq) hqe₃
    rw [Element.unsetters_of_bare hbare] at hget
    rw [Element.choices_of_bare hbare] at hhas
    obtain ⟨b', hhook, hfield⟩ := hs.unsetter hqe (Assoc.mem_of_get?_eq_some hget)
    obtain rfl := Unset.contents.inj hhook
    obtain ⟨qe', hqe', hbelow⟩ := hs.listed hbe (hfield.2 be hbe).1 (Set.notMem_empty b)
    obtain rfl : qe = qe' := Option.some.inj (hqe.symm.trans hqe')
    obtain ⟨name, hchild⟩ | ⟨l, key, hl, -⟩ := Element.mem_below hbelow
    · obtain ⟨-, -, be₃, hbe₃, -⟩ := hs₃.child hqe₃ (hch ▸ hchild)
      rw [hb] at hbe₃
      cases hbe₃
    · obtain ⟨n, hmember⟩ := hf.member hqe hhas
      obtain ⟨default, hlist⟩ := hf.schema_eq hqe hl
      rw [hlist] at hmember
      cases hmember
  · obtain ⟨xe, hxe⟩ := exists_of_mem_marks hp₃ hx
    obtain ⟨k, hk, -, hkx, -⟩ := hlost (by rw [hxe]; rfl)
    exact absurd (fun c hm hu =>
      hfree c hm ((hu.trans hkx).trans (under_of_mem_marks hs₃ hp₃ hx))) hk

/-- The entry is the last one of the list, under its key, and stands in the first new slot.  The
list holds what it held before, or is in a case and was emptied by what was assigned to the key
leaves. -/
def Enters (t : Tree) (id : ElementId) (key : String) (t' : Tree) : Prop :=
  ∃ l l' kept, t.held id = some (.list l) ∧ t'.held id = some (.list l') ∧ l'.schema = l.schema ∧
    (kept = l.members ∨ kept = [] ∧ t.InCase id) ∧ l'.members = kept ++ [(key, ⟨t.slots.size⟩)]

/-- **Adding to the list**: if it succeeds, the entry enters the list.  If it fails, the list is
upheld, unless its plan was stale and the entry has entered the list all the same. -/
theorem Adds.enters (h : t.Adds schema (Upholds (t.MayEmpty id) id) id result t') (hs : Sound t ∅)
    (hf : t.Follows schema node) (ha : schema.root.Apart) :
    (∀ key, result = .ok key → t.Enters id key t') ∧
      ((∀ key, result ≠ .ok key) →
        (t.Stale id ∧ ∃ key, t.Enters id key t') ∨ t.Upholds (t.InCase id) id t') := by
  cases h with
  | stopped hno hel =>
    exact ⟨fun key hok => absurd hok (hno key),
      fun _ => .inr (upholds_of_held (held_congr (hel id)))⟩
  | refused hno h hlaid hA hback =>
    refine ⟨fun key hok => absurd hok (hno key), fun _ => .inr ?_⟩
    exact (h.of_upholds hlaid (trans_of (Upholds (t.MayEmpty id) id) hA hback.upholds)).1
      (index_lt_of_element? h.owner)
  | @entered e l path key entry before t₁ t₂ p r h hlaid hA hret hlist hnew hp hs₃ hp₃
      hf₃ hrun hresult =>
    obtain ⟨node₃, hf₃⟩ := hf₃
    obtain ⟨members, hlist⟩ := hlist
    have hid := index_lt_of_element? h.owner
    have hheld : t.held id = some (.list l) := held_eq_some_iff.2 ⟨e, h.owner, h.list⟩
    have hkept : members = l.members ∨ members = [] ∧ t.InCase id := by
      obtain ⟨l₁, hl₁, -, hm⟩ := hA hlist
      rw [h.alike.held hid, hheld] at hl₁
      obtain rfl := Content.list.inj (Option.some.inj hl₁)
      exact hm.imp_right fun hm => ⟨hm.1, hm.2 hid⟩
    obtain ⟨e₂, he₂, hl₂⟩ := held_eq_some_iff.1 hlist
    have he₃ : (t₂.enlisted id l key entry).element? id =
        some (relist (·.insert key entry) e₂) := by
      rw [element?_enlisted, element?_modifyElement_self he₂]
    have hfree := hf₃.free_self hs₃ ha he₃ hp₃
    have hlast := held_commit_of_free hs₃ hf₃.declared ((frameStable_sound ∅).plan hs hp) hfree
    rw [hrun] at hlast
    have hkeys : key ∉ Assoc.keys members := by
      obtain rfl | ⟨rfl, -⟩ := hkept
      · exact hnew
      · exact List.not_mem_nil
    have henters : t.Enters id key t' := by
      refine ⟨l, { l with members }.insert key entry, members, hheld, ?_, rfl, hkept, ?_⟩
      · rw [hlast]
        exact held_eq_some_iff.2 ⟨_, he₃, by rw [relist_of_list hl₂]⟩
      · rw [← h.entering.entry_eq]
        exact Assoc.insert_eq_append hkeys entry
    cases r with
    | ok u =>
      refine ⟨fun key' hok => ?_, fun hno => absurd hresult (hno key)⟩
      obtain rfl : key = key' := Except.ok.inj (hresult.symm.trans hok)
      exact henters
    | error err =>
      refine ⟨fun key' hok => ?_, fun _ => .inl ⟨?_, key, henters⟩⟩
      · rw [hresult] at hok
        cases hok
      · refine hf.stale_of_stuck hs hp hs₃ hf₃.declared hp₃ (fun {x e₃} hx hx₃ => ?_) hfree hrun
        obtain ⟨xe₂, hx₂, hb₂, hch₂⟩ := retains_enlisted t₂ id l key entry hx₃
        obtain ⟨xe₁, hx₁, hb₁, hch₁⟩ := hret hx₂
        rw [h.entering.older (by omega)] at hx₁
        exact ⟨xe₁, hx₁, hb₂.trans hb₁, hch₂.trans hch₁⟩

/-! ## Telling about it -/

/-- Adding an entry to a list: what becomes of another one. -/
theorem upholds_add (hs : Sound t ∅) (hf : t.Follows schema node) (hne : y ≠ id)
    (key : Option String) :
    (y.index < t.slots.size → t.Upholds (t.InCase y) y ((add id key).on t).2) ∧
      (t.slots.size ≤ y.index → ∀ l', ((add id key).on t).2.held y = some (.list l') →
        l'.members = []) := by
  refine rel_of_ensures (R := fun t t' => (y.index < t.slots.size → t.Upholds (t.InCase y) y t') ∧
    (t.slots.size ≤ y.index → ∀ l', t'.held y = some (.list l') → l'.members = []))
    (ensures_add (fun _ _ => ⟨fun _ => refl_of (Upholds (t.InCase y) y) t, fun hy l' hl' => ?_⟩)
      fun {e l} he hl => ?_)
  · rw [held, element?_eq_none_of_size_le hy] at hl'
    cases hl'
  · let told := t.tell (.adding e.path)
    have hs₁ : Sound told ∅ := hs.sameFrame (sameFrame_tell t _)
    have hf₁ : told.Follows schema node := hf.of_slots rfl
    refine (adds_addEntry (A := Upholds (told.MayEmpty y) y) hs₁ hf₁ key fun _ h =>
      h.upholds_assignKey hs₁ _).mono (fun key' t' h => ?_) fun _ _ h => h.upholds hs₁ hne
    have hup := h.upholds hs₁ hne
    refine ⟨fun hy => trans_of (Upholds (t.InCase y) y) (hup.1 hy)
      (sameFrame_tell t' _).upholds, hup.2⟩

/-- Adding an entry to a list: what becomes of this list. -/
theorem enters_add (hs : Sound t ∅) (hf : t.Follows schema node) (ha : schema.root.Apart)
    (key : Option String) :
    (add id key).Ensures t (t.Enters id) fun _ t' =>
      (t.Stale id ∧ ∃ key', t.Enters id key' t') ∨ t.Upholds (t.InCase id) id t' := by
  refine ensures_add (fun _ _ => .inr (refl_of (Upholds (t.InCase id) id) t)) fun {e l} he hl => ?_
  let told := t.tell (.adding e.path)
  have hs₁ : Sound told ∅ := hs.sameFrame (sameFrame_tell t _)
  have hf₁ : told.Follows schema node := hf.of_slots rfl
  refine (adds_addEntry (A := Upholds (told.MayEmpty id) id) hs₁ hf₁ key fun _ h =>
    h.upholds_assignKey hs₁ _).mono (fun key' t' h => ?_) fun err t' h => ?_
  · exact (h.enters hs₁ hf₁ ha).1 key' rfl
  · exact ((h.enters hs₁ hf₁ ha).2 (by rintro _ ⟨⟩)).imp_left fun hstuck =>
      ⟨(stale_tell t _ id).1 hstuck.1, hstuck.2⟩

end DataTree.Tree
