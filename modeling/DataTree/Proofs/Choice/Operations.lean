import DataTree.Proofs.Choice.Exclusive

/-!
# DataTree.Proofs.Choice.Operations

The operations that fill a tree and that empty it keep it orderly.
-/

namespace DataTree.Tree

open Edit Outcome

variable {t t' : Tree} {pending pending' : Set ElementId} {id x : ElementId} {e : Element}
  {safe : Prop}

/-- Order is a matter of the slots. -/
theorem Orderly.of_slots (h : t.Orderly safe pending) (hs : t'.slots = t.slots)
    (hl : t'.live = t.live) (hm : t'.madeKeys = t.madeKeys) : t'.Orderly safe pending :=
  h.fades (fades_of_slots hs) (h.sound.sameFrame (sameFrame_of_slots hs hl hm))

theorem Orderly.tell (h : t.Orderly safe pending) (event : Event) :
    (t.tell event).Orderly safe pending :=
  h.of_slots rfl rfl rfl

/-! ## Items -/

/-- Putting changed items into an element and carrying out its plan. -/
theorem Orderly.changeItems {content : Content} {p : Plan} (h : t.Orderly safe ∅)
    (hp : t.plan id none = .ok p) (he : t.element? id = some e) (hc : e.content ≠ .container)
    (hsame : e.content.SameFrame content) :
    (do update id fun e => { e with content }
        commit p : Edit Unit).Ensures t (fun _ t' => t'.Orderly safe ∅) fun _ t' =>
          t'.Orderly safe ∅ := by
  rw [ensures_bind, ensures_update]
  refine ⟨fun _ _ => ?_, fun _ => h⟩
  have hframe : t.SameFrame (t.modifyElement id fun e => { e with content }) := by
    refine sameFrame_modifyElement fun e' he' => ?_
    obtain rfl : e = e' := Option.some.inj (he.symm.trans he')
    exact Element.frame_of_content hsame
  have hretains := hframe.retains
  refine h.commitFilled hp he hc (hretains.thins.bareTo id) hretains
    (fun y hy => element?_modifyElement_of_ne hy _) (h.sound.sameFrame hframe) ?_
  rw [isSome_element?_modifyElement, he]
  rfl

/-- Editing items keeps a tree orderly. -/
theorem orderly_editItem (id : ElementId) (op : ItemEdit) :
    Leads (Keeping (Orderly · safe ∅)) (editItem id op) := by
  refine leads_keeping_iff.2 fun t h => ?_
  rw [editItem, ensures_reading_bind]
  refine ⟨fun p hp => ?_, fun _ _ => h⟩
  rw [ensures_get_bind]
  refine ⟨fun e he => ?_, fun _ => h⟩
  rw [ensures_ofExcept_bind]
  refine ⟨fun r hr => ?_, fun _ _ => h⟩
  obtain ⟨item, content⟩ := r
  have hc : e.content ≠ .container := by
    intro hcont
    rw [hcont] at hr
    cases hr
  have hcommit := h.changeItems hp he hc (Content.sameFrame_of_edit hr)
  rw [ensures_bind] at hcommit ⊢
  refine hcommit.mono (fun _ t₁ h₁ => h₁.bind fun _ t₂ h₂ => ?_) fun _ _ hf => hf
  rw [ensures_get_bind]
  refine ⟨fun e₂ _ => ?_, fun _ => h₂⟩
  rw [ensures_changing_bind]
  show Orderly (if _ then _ else _) safe ∅
  split
  · exact h₂.of_slots (by simp [registerMember]) (by simp [registerMember])
      (by simp [registerMember])
  · exact h₂.of_slots (by simp [unregisterMember]) (by simp [unregisterMember])
      (by simp [unregisterMember])

/-- So does adding in bulk. -/
theorem orderly_extend (id : ElementId) (raws : List Value) :
    Leads (Keeping (Orderly · safe ∅)) (extend id raws) := by
  refine leads_keeping_iff.2 fun t h => ?_
  rw [extend, ensures_reading_bind]
  refine ⟨fun p hp => ?_, fun _ _ => h⟩
  rw [ensures_get_bind]
  refine ⟨fun e he => ?_, fun _ => h⟩
  rw [ensures_ofExcept_bind]
  refine ⟨fun r hr => ?_, fun _ _ => h⟩
  obtain ⟨items, content⟩ := r
  have hc : e.content ≠ .container := by
    intro hcont
    rw [hcont] at hr
    cases hr
  have hcommit := h.changeItems hp he hc (Content.sameFrame_of_extend hr)
  rw [ensures_bind] at hcommit ⊢
  refine hcommit.mono (fun _ t₁ h₁ => h₁.bind fun _ t₂ h₂ => ?_) fun _ _ hf => hf
  refine ((ensures_forM (I := fun _ t' => t'.Orderly safe ∅) (fun item _ t' h' => ?_) h₂).bind
    fun _ _ h' => h')
  rw [ensures_get_bind]
  refine ⟨fun e' _ => ?_, fun _ => h'⟩
  exact h'.of_slots (by simp [registerMember]) (by simp [registerMember]) (by simp [registerMember])

/-! ## Unsetting -/

/-- So does unsetting. -/
theorem orderly_unset (id : ElementId) : Leads (Keeping (Orderly · safe ∅)) (unset id) := by
  refine leads_keeping_iff.2 fun t h => ?_
  refine (fades_unset h.sound h.arranged.declared id).mono (fun _ t' hd => ?_) fun _ t' hf => ?_
  · exact h.fades hd.2.1 hd.1
  · exact hf.1 ▸ h

/-! ## Deleting -/

/-- Removing what is pending lets data fade. -/
theorem Orderly.removePending (h : t.Orderly safe pending) (hid : id ∈ pending) :
    (removeSubtree id).Ensures t (fun _ t' => t'.Orderly safe (pending \ {id}))
      fun _ _ => False := by
  refine (h.sound.removePending hid).mono (fun _ t' hd => ?_) fun _ _ hf => hf
  obtain ⟨h', hgone, hstays⟩ := hd
  refine h.fades (fun x e' he' => ⟨e', ?_, rfl, rfl, fun hdata => hdata⟩) h'
  by_cases hu : t.Under id x
  · rw [hgone x hu] at he'
    cases he'
  · exact hstays x hu ▸ he'

/-- Fewer entries are less data. -/
theorem fades_withList {l rest : KeyedList} (he : t.element? id = some e) (hl : e.content = .list l)
    (hschema : rest.schema = l.schema) (hne : l.members ≠ []) : t.Fades (t.withList id rest) := by
  refine fades_modifyElement fun e' he' => ?_
  obtain rfl : e = e' := Option.some.inj (he.symm.trans he')
  have hl' : l.isEmpty = false := by simpa [KeyedList.isEmpty] using hne
  rw [relist_of_list hl]
  simp [hl, Element.bare, Content.bare, hschema, Content.holdsData, hl']

/-- So does deleting an entry. -/
theorem orderly_delete (id : ElementId) (key : String) :
    Leads (Keeping (Orderly · safe ∅)) (delete id key) := by
  refine leads_keeping_iff.2 fun t h => ensures_delete (fun _ => h) fun {e} he => ?_
  have h₁ := h.tell (.deleting e.path key)
  refine ⟨fun _ => h₁, fun {p l entry rest} hp hl htake => ?_⟩
  have hgood := (frameStable_sound ∅).plan h₁.sound hp
  obtain ⟨hschema, hperm⟩ := KeyedList.perm_of_take (h.sound.keys he hl) htake
  have hne : l.members ≠ [] := by
    intro hnil
    have hmem := hperm.mem_iff.2 (List.mem_cons_self (a := (key, entry)))
    rw [hnil] at hmem
    cases hmem
  have hfades := fades_withList (t := t.tell (.deleting e.path key)) he hl hschema hne
  have hsound := h₁.sound.takeEntry (t := t.tell (.deleting e.path key)) he hl htake
  have hrm := (h₁.fades hfades hsound).removePending (Set.mem_singleton entry)
  rw [Set.sdiff_self] at hrm
  refine hrm.mono (fun _ t₂ h₂ => ?_) fun _ _ hf => hf.elim
  exact (h₂.commitUnfilled hgood).mono (fun _ t₃ h₃ => h₃.tell _) fun _ _ hf => hf

/-! ## Adding -/

theorem orderly_restoreMarks (marks : List (ElementId × Bool)) :
    Leads (Keeping (Orderly · safe pending)) (restoreMarks marks) := fun t h =>
  h.fades (fades_restoreMarks marks t)
    (((frameStable_sound pending).assignStable.restoreMarks marks) t h.sound)

/-- Assigning the key of a new entry either leaves an orderly tree with the entry pending, or
takes the entry back. -/
theorem orderly_tryAssignKey {entry : ElementId} {parts : List (String × String)}
    {before : List (ElementId × Bool)} (h : t.Orderly safe {entry}) :
    (tryAssignKey entry parts before).Ensures t (fun _ t' => t'.Orderly safe {entry} ∧ t.Shrinks t')
      fun _ t' => t'.Orderly safe ∅ := by
  rw [tryAssignKey, ensures_tryCatch]
  refine ((settles_assignKey entry parts).ensures t).mono
    (fun _ t' hs => ⟨hs.2 h, hs.1⟩) fun err t' hs => ?_
  have hrm := (hs.2 h).removePending (Set.mem_singleton entry)
  rw [Set.sdiff_self] at hrm
  refine (hrm.mono (fun _ _ hd => hd) fun _ _ hf => hf.elim).bind fun _ t₁ h₁ => ?_
  exact ((orderly_restoreMarks before).keeps h₁).bind fun _ _ h₂ => h₂

section

variable {l : KeyedList} {path : String} {entry : ElementId}

/-- Data that was there before is where it was. -/
theorem Sound.within_of_agrees (h' : Sound t' pending) (ha : t.Agrees t' 0)
    (hx : x.index < t.slots.size) {c : ElementId} (hw : t'.Within c x) : t.Within c x := by
  induction hw using Relation.ReflTransGen.head_induction_on with
  | refl => exact .refl
  | head hc hw ih =>
    have hle := h'.index_le_of_under (Within.under hw)
    obtain ⟨-, hlt, -⟩ := h'.of_above hc.above
    obtain ⟨e, name, he, hm⟩ := hc
    rw [ha (Nat.zero_le _) (by omega)] at he
    exact Relation.ReflTransGen.head ⟨e, name, he, hm⟩ ih

/-- Rivals were rivals before, where two trees agree. -/
theorem Sound.rival_of_agrees (h' : Sound t' pending) (ha : t.Agrees t' 0)
    (hx : x.index < t.slots.size) {b : ElementId} (hr : t'.Rival x b) : t.Rival x b := by
  obtain ⟨id, e, k, k', m, m', c, he, hk, hk', hkk, hm, hm', hw⟩ := hr
  have hle := h'.index_le_of_under hw.under
  obtain ⟨hlt, -⟩ := h'.index_of_child he hm
  rw [ha (Nat.zero_le _) (by omega)] at he
  exact ⟨id, e, k, k', m, m', c, he, hk, hk', hkk, hm, hm', h'.within_of_agrees ha hx hw⟩

/-- A new entry holds no data yet, and shadows no choice if its list does not. -/
theorem Orderly.entering (h : t.Orderly safe ∅) (he : t.element? id = some e)
    (hl : e.content = .list l) (hent : t.Entering id e path entry t')
    (hlaid : t'.Laid (.container l.schema.entry .empty) none entry) : t'.Orderly safe {entry} := by
  have hagrees : t.Agrees t' 0 := fun _ hx => hent.older hx
  have hnew : ∀ {x : ElementId}, ¬ x.index < t.slots.size → entry.index ≤ x.index := by
    intro x hx
    rw [hent.entry_eq]
    exact Nat.le_of_not_lt hx
  have hold : ∀ {x}, t'.Laden x → x.index < t.slots.size ∧ t.Laden x := by
    intro x hx
    by_cases hlt : x.index < t.slots.size
    · exact ⟨hlt, (laden_congr (hent.older hlt)).1 hx⟩
    · obtain ⟨xe, hxe, hdata⟩ := hx
      rw [hlaid.blank (hnew hlt) hxe] at hdata
      cases hdata
  constructor
  case sound => exact hent.sound
  case arranged =>
    intro x
    by_cases hx : x.index < t.slots.size
    · exact hagrees.arrangedAt h.sound (h.arranged x) (Nat.zero_le _) hx
    · exact hlaid.arranged (hnew hx)
  case unshadowed =>
    intro hs x
    by_cases hx : x.index < t.slots.size
    · exact hagrees.unshadowedAt h.sound (h.unshadowed hs x) (Nat.zero_le _) hx
    · exact hlaid.unshadowed
        (Schema.unshadowed_container.2 ((h.unshadowed hs id).entry he hl)) (hnew hx)
  case exclusive =>
    refine fun hs => hent.sound.exclusive_iff.2 fun {x b y} hx hr hw hy => ?_
    obtain ⟨hxlt, hx⟩ := hold hx
    obtain ⟨hylt, hy⟩ := hold hy
    have hr := hent.sound.rival_of_agrees hagrees hxlt hr
    have hw := hent.sound.within_of_agrees hagrees hylt hw
    exact h.sound.exclusive_iff.1 (h.exclusive hs) hx hr hw hy

end

/-- Adding an entry keeps a tree orderly, whether it succeeds or fails. -/
theorem orderly_addEntry (h : t.Orderly safe ∅) (id : ElementId) (key : Option String) :
    (addEntry id key).Ensures t (fun _ t' => t'.Orderly safe ∅) fun _ t' => t'.Orderly safe ∅ := by
  refine ensures_addEntry (fun _ => h) fun {p e l key' parts path} hp he hl hkey => ?_
  have hdistinct : (Schema.container l.schema.entry .empty).Distinct :=
    Schema.distinct_container.2 (h.sound.distinct he hl)
  have hlaid := laid_build _ hdistinct h.sound (fits_entrySpec he hl path)
  refine ((ensures_buildEntry h.sound he hl).and hlaid).mono
    (fun entry t₁ hb => ?_) fun _ t' hf => ?_
  · obtain ⟨hent, hlaid⟩ := hb
    have h₁ := h.entering he hl hent hlaid
    obtain ⟨before, hbefore⟩ := hent.exists_marks he
    refine ⟨fun err herr => ?_, fun before' _ => ?_⟩
    · rw [hbefore] at herr
      cases herr
    obtain ⟨ce, hce, hpar, -⟩ := hent.element
    have htry : (tryAssignKey entry (l.schema.key.fields.zip parts) before').Ensures t₁ _ _ :=
      (orderly_tryAssignKey h₁).and
        (sound_tryAssignKey hent.sound hce hpar (by rw [hent.list]; rfl))
    refine htry.mono (fun _ t₂ h₂ => ?_) fun _ _ hf => hf.1
    obtain ⟨⟨h₂, hs⟩, -, -, hsome⟩ := h₂
    refine ⟨fun hnone => ?_, fun e₂ he₂ => ?_⟩
    · rw [hnone] at hsome
      cases hsome
    have hretains := retains_enlisted t₂ id l key' entry
    have holder : t.BareTo id t₁ := by
      intro y e' hy he'
      have hid := index_lt_of_element? he
      rw [hent.older (by omega)] at he'
      exact ⟨e', he', rfl⟩
    have hbare := (holder.trans (hs.thins.bareTo id)).trans (hretains.thins.bareTo id)
    refine h₂.commitFilled hp he (by simp [hl]) hbare hretains (fun y hy => ?_)
      (hent.sound_enlisted hl hkey hs h₂.sound he₂) ?_
    · rw [element?_enlisted, element?_modifyElement_of_ne hy]
    · rw [element?_enlisted, isSome_element?_modifyElement, hsome]
  · obtain ⟨⟨h', hr⟩, -⟩ := hf
    exact h.fades (fun x e' he' => ⟨e', hr.element x ▸ he', rfl, rfl, fun hd => hd⟩) h'

/-- Adding an entry keeps a tree orderly, whether it succeeds or is taken back. -/
theorem orderly_add (id : ElementId) (key : Option String) :
    Leads (Keeping (Orderly · safe ∅)) (add id key) :=
  leads_add (fun event h => h.tell event) (leads_keeping_iff.2 fun _ h => orderly_addEntry h id key)

end DataTree.Tree
