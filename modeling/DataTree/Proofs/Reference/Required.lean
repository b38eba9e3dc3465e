import DataTree.Proofs.Reference.Broken
import DataTree.Proofs.Reference.Chain
import DataTree.Proofs.Rollback.Accounts

/-!
# DataTree.Proofs.Reference.Required

References that require an instance.

A value for such a reference has to be offered by one of the candidates that its path leads
to: as an item, as a key or as the value.  The candidates are asked in order, and one that
cannot be read ends that.  So the value is accepted if one offers it and those before that
can be compared with it, and it is refused if none offers it and all can be named; otherwise
the error is that of reading a candidate (`Decides`).  As long as all can be named, it is
what they offer that decides, and their order does not matter (`required_instance`).
-/

namespace DataTree

open Edit Outcome

/-- Steps for the items of a list in another order give their results in another order. -/
theorem Outcome.perm_of_mapM {ε α β : Type} {f : α → Except ε β} {as as' : List α} {bs bs' : List β}
    (hperm : as'.Perm as) (h : as.mapM f = .ok bs) (h' : as'.mapM f = .ok bs') : bs'.Perm bs := by
  obtain ⟨cs, hcs, hcperm⟩ := List.perm_comp_forall₂ hperm (mapM_eq_ok.1 h)
  obtain rfl := Except.ok.inj (h'.symm.trans (mapM_eq_ok.2 hcs))
  exact hcperm

/-- The same targets at every path, in other orders, answer a query in another order. -/
theorem Registry.lookup_perm {r r' : Registry} (h : r.Tidy) (h' : r'.Tidy)
    (hperm : ∀ path, (r'.targetsAt path).Perm (r.targetsAt path)) (query : String)
    (caller : Option String) : (r'.lookup query caller).Perm (r.lookup query caller) := by
  have hpaths : r'.paths.Perm r.paths := by
    refine (List.perm_ext_iff_of_nodup h'.nodup h.nodup).2 fun path => ?_
    have hnil : r'.targetsAt path = [] ↔ r.targetsAt path = [] := by
      rw [← List.length_eq_zero_iff, ← List.length_eq_zero_iff, (hperm path).length_eq]
    exact (mem_paths_iff h').trans ((not_congr hnil).trans (mem_paths_iff h).symm)
  rw [lookup_of_tidy h, lookup_of_tidy h']
  exact (hpaths.filter _).flatMap fun path _ => hperm path

namespace Tree

variable {t t' : Tree} {x : ElementId} {e : Element} {r : ReferenceType} {raw : Value} {c : Target}
  {text : String} {found found' : List Target} {err : Error}
  {res res' : Except Error ReferenceValue} {labels : List String}

/-! ## Candidates -/

/-- The ways in which a target offers an instance of a text. -/
inductive Offers (t : Tree) (text : String) : Target → Prop
  | member {x : ElementId} {v : Value} : v.toText = text → Offers t text (.member x v)
  | key {x : ElementId} {e : Element} {l : KeyedList} :
    t.element? x = some e → e.content = .list l → text ∈ l.keys → Offers t text (.element x)
  | item {x : ElementId} {e : Element} {l : LeafList} {v : Value} :
    t.element? x = some e → e.content = .leafList l → v ∈ l.items → v.toText = text →
    Offers t text (.element x)
  | value {x : ElementId} {e : Element} {v : Value} :
    t.element? x = some e → e.content.branches = false → (∀ l, e.content ≠ .leafList l) →
      t.value x = .ok v → v.toText = text → Offers t text (.element x)

/-- What has elements below it is not read to compare a value with it; anything else is. -/
def Comparable (t : Tree) : Target → Prop
  | .member _ _ => True
  | .element x => (∃ e, t.element? x = some e ∧ e.content.branches = true) ∨ ∃ v, t.value x = .ok v

/-- A list is named by its keys; anything else has to be read. -/
def Nameable (t : Tree) : Target → Prop
  | .member _ _ => True
  | .element x => (∃ e l, t.element? x = some e ∧ e.content = .list l) ∨ ∃ v, t.value x = .ok v

/-- What has a name can be compared. -/
theorem Nameable.comparable (h : t.Nameable c) : t.Comparable c := by
  cases c with
  | member x v => trivial
  | element x =>
    obtain ⟨e, l, he, hl⟩ | hread := h
    · exact .inl ⟨e, he, by rw [hl]; rfl⟩
    · exact .inr hread

/-- What an element offers: its keys, its items or its value, as a text. -/
theorem offers_element_iff (he : t.element? x = some e) : t.Offers text (.element x) ↔
    (∃ l, e.content = .list l ∧ text ∈ l.keys) ∨
    (∃ l, e.content = .leafList l ∧ ∃ v ∈ l.items, v.toText = text) ∨
      (e.content.branches = false ∧ (∀ l, e.content ≠ .leafList l) ∧
        ∃ v, t.value x = .ok v ∧ v.toText = text) := by
  have hsame : ∀ {e'}, t.element? x = some e' → e' = e :=
    fun he' => Option.some.inj (he'.symm.trans he)
  constructor
  · intro h
    cases h with
    | key he' hl hkey =>
      obtain rfl := hsame he'
      exact .inl ⟨_, hl, hkey⟩
    | item he' hl hv htext =>
      obtain rfl := hsame he'
      exact .inr (.inl ⟨_, hl, _, hv, htext⟩)
    | value he' hb hl hv htext =>
      obtain rfl := hsame he'
      exact .inr (.inr ⟨hb, hl, _, hv, htext⟩)
  · rintro (⟨l, hl, hkey⟩ | ⟨l, hl, v, hv, htext⟩ | ⟨hb, hl, v, hv, htext⟩)
    · exact .key he hl hkey
    · exact .item he hl hv htext
    · exact .value he hb hl hv htext

/-- An element that offers something is there. -/
theorem Offers.element?_ne_none (h : t.Offers text (.element x)) : t.element? x ≠ none := by
  cases h with
  | key he _ _ => simp [he]
  | item he _ _ _ => simp [he]
  | value he _ _ _ _ => simp [he]

/-- An element that is gone cannot be read. -/
theorem element_of_none (hnone : t.element? x = none) : t.element x = .error (.elementNotFound x) :=
  element_eq_error_iff.2 ⟨hnone, rfl⟩

/-- Nor has it a value. -/
theorem value_of_none (hnone : t.element? x = none) : t.value x = .error (.elementNotFound x) := by
  rw [value, snapshot, snapshotFrom, element_of_none hnone]
  rfl

/-- A leaf-list can always be read. -/
theorem value_of_leafList (he : t.element? x = some e) {l : LeafList}
    (hl : e.content = .leafList l) :
    t.value x = .ok (Content.leafList l).snapshot := by
  rw [value, snapshot, snapshotFrom, element_eq_ok_iff.2 he]
  simp only [bind, Except.bind, hl]
  rfl

/-- What asking a target whether it admits a value comes to: it does if it offers it, and one that
cannot be compared cannot be read. -/
inductive Asked (t : Tree) (raw : Value) (c : Target) : Except Error Bool → Prop
  | answered {b : Bool} : (b = true ↔ t.Offers raw.toText c) → t.Comparable c →
      Asked t raw c (.ok b)
  | failed {x : ElementId} {err : Error} : c = .element x → t.value x = .error err →
      ¬ t.Comparable c →
    Asked t raw c (.error err)

/-- What is neither a container, a list nor a leaf-list is read. -/
theorem asked_value (he : t.element? x = some e) (hb : e.content.branches = false)
    (hl : ∀ l, e.content ≠ .leafList l) (raw : Value) :
    t.Asked raw (.element x) ((t.value x).map fun v => v.toText == raw.toText) := by
  cases hv : t.value x with
  | ok v =>
    refine .answered ?_ (.inr ⟨v, hv⟩)
    rw [beq_iff_eq, offers_element_iff he]
    refine ⟨fun htext => .inr (.inr ⟨hb, hl, v, hv, htext⟩), ?_⟩
    rintro (⟨l, hlist, -⟩ | ⟨l, hlist, -⟩ | ⟨-, -, w, hw, htext⟩)
    · rw [hlist] at hb
      cases hb
    · exact absurd hlist (hl l)
    · obtain rfl : v = w := Except.ok.inj (hv.symm.trans hw)
      exact htext
  | error err =>
    refine .failed rfl hv ?_
    rintro (⟨e', he', hb'⟩ | ⟨v, hv'⟩)
    · obtain rfl : e = e' := Option.some.inj (he.symm.trans he')
      rw [hb] at hb'
      cases hb'
    · cases hv.symm.trans hv'

/-- A candidate that is asked gives the answer of the definition. -/
theorem asked_admits (t : Tree) (raw : Value) (c : Target) : t.Asked raw c (t.admits raw c) := by
  cases c with
  | member x v =>
    refine .answered ?_ trivial
    rw [beq_iff_eq]
    exact ⟨.member, fun h => by cases h with | member htext => exact htext⟩
  | element x =>
    cases he : t.element? x with
    | none =>
      rw [admits, element_of_none he]
      refine .failed rfl (value_of_none he) ?_
      rintro (⟨e, he', -⟩ | ⟨v, hv⟩)
      · cases he.symm.trans he'
      · cases (value_of_none he).symm.trans hv
    | some e =>
      rw [admits, element_eq_ok_iff.2 he]
      simp only [bind, Except.bind]
      cases hc : e.content with
      | container =>
        refine .answered ?_ (.inl ⟨e, he, by rw [hc]; rfl⟩)
        simp [offers_element_iff he, hc, Content.branches]
      | list l =>
        have hkeys : l.contains raw.toText = true ↔ raw.toText ∈ l.keys := by
          rw [← not_iff_not, Bool.not_eq_true]
          exact Assoc.contains_eq_false_iff
        refine .answered ?_ (.inl ⟨e, he, by rw [hc]; rfl⟩)
        simp [offers_element_iff he, hc, Content.branches, hkeys]
      | leafList l =>
        refine .answered ?_ (.inr ⟨_, value_of_leafList he hc⟩)
        simp [offers_element_iff he, hc, Content.branches]
      | leaf slot =>
        have hasked := asked_value he (by rw [hc]; rfl) (by simp [hc]) raw
        cases hv : t.value x <;> rwa [hv] at hasked
      | custom content =>
        have hasked := asked_value he (by rw [hc]; rfl) (by simp [hc]) raw
        cases hv : t.value x <;> rwa [hv] at hasked

/-- What offers a value can be compared with it. -/
theorem Offers.comparable (h : t.Offers raw.toText c) : t.Comparable c := by
  cases h with
  | member _ => trivial
  | key he hl _ => exact .inl ⟨_, he, by rw [hl]; rfl⟩
  | item he hl _ _ => exact .inr ⟨_, value_of_leafList he hl⟩
  | value _ _ _ hv _ => exact .inr ⟨_, hv⟩

/-- A candidate that offers the value accepts it. -/
theorem admits_of_offers (h : t.Offers raw.toText c) : t.admits raw c = .ok true := by
  have hasked := t.asked_admits raw c
  generalize t.admits raw c = answer at hasked
  cases hasked with
  | answered hb _ => rw [hb.2 h]
  | failed _ _ hno => exact absurd h.comparable hno

/-- One that can be compared and does not offer it refuses it. -/
theorem admits_of_not_offers (h : ¬ t.Offers raw.toText c) (hc : t.Comparable c) :
    t.admits raw c = .ok false := by
  have hasked := t.asked_admits raw c
  generalize t.admits raw c = answer at hasked
  cases hasked with
  | answered hb _ => rw [Bool.eq_false_iff.2 fun htrue => h (hb.1 htrue)]
  | failed _ _ hno => exact absurd hc hno

/-! ## Asking the candidates in order -/

/-- What asking candidates in order comes to: the first that offers the value accepts it, if those
before it can be compared; without one, all have to be compared. -/
inductive AskedAll (t : Tree) (raw : Value) (found : List Target) : Except Error Bool → Prop
  | accepted {before after : List Target} {c : Target} : found = before ++ c :: after →
      t.Offers raw.toText c →
    (∀ d ∈ before, t.Comparable d) → AskedAll t raw found (.ok true)
  | refused : (∀ c ∈ found, ¬ t.Offers raw.toText c ∧ t.Comparable c) →
      AskedAll t raw found (.ok false)
  | failed {before after : List Target} {x : ElementId} {err : Error} :
      found = before ++ .element x :: after →
    (∀ d ∈ before, ¬ t.Offers raw.toText d) → t.value x = .error err → ¬ t.Comparable (.element x) →
    AskedAll t raw found (.error err)

/-- Asking candidates in order gives the answer of the definition. -/
theorem askedAll_anyAdmits (t : Tree) (raw : Value) (found : List Target) :
    t.AskedAll raw found (t.anyAdmits raw found) := by
  induction found with
  | nil => exact .refused fun c hc => by cases hc
  | cons d ds ih =>
    rw [anyAdmits]
    by_cases hoffers : t.Offers raw.toText d
    · rw [admits_of_offers hoffers]
      exact .accepted (List.nil_append _).symm hoffers fun c hc => by cases hc
    have hasked := t.asked_admits raw d
    by_cases hcompares : t.Comparable d
    case neg =>
      generalize t.admits raw d = answer at hasked
      cases hasked with
      | answered _ h => exact absurd h hcompares
      | failed hd hv _ =>
        subst hd
        exact .failed (List.nil_append _).symm (fun c hc => by cases hc) hv hcompares
    rw [admits_of_not_offers hoffers hcompares]
    simp only [bind, Except.bind, Bool.false_eq_true, ↓reduceIte]
    generalize t.anyAdmits raw ds = answer at ih
    cases ih with
    | @accepted before after c hds hc hbefore =>
      have hsplit : d :: ds = (d :: before) ++ c :: after := congrArg (d :: ·) hds
      exact .accepted hsplit hc (List.forall_mem_cons.2 ⟨hcompares, hbefore⟩)
    | refused hall => exact .refused (List.forall_mem_cons.2 ⟨⟨hoffers, hcompares⟩, hall⟩)
    | @failed before after x err hds hbefore hv hno =>
      have hsplit : d :: ds = (d :: before) ++ .element x :: after := congrArg (d :: ·) hds
      exact .failed hsplit (List.forall_mem_cons.2 ⟨hoffers, hbefore⟩) hv hno

/-- A candidate that offers the value is reached past those that can be compared. -/
theorem anyAdmits_of_offers {before after : List Target} (h : t.Offers raw.toText c)
    (hbefore : ∀ d ∈ before, t.Comparable d) :
    t.anyAdmits raw (before ++ c :: after) = .ok true := by
  induction before with
  | nil =>
    rw [List.nil_append, anyAdmits, admits_of_offers h]
    rfl
  | cons d ds ih =>
    obtain ⟨hd, hds⟩ := List.forall_mem_cons.1 hbefore
    rw [List.cons_append, anyAdmits]
    by_cases hoffers : t.Offers raw.toText d
    · rw [admits_of_offers hoffers]
      rfl
    · rw [admits_of_not_offers hoffers hd]
      exact ih hds

/-! ## Naming the candidates -/

/-- A target has a name if it can be named, and otherwise it cannot be read. -/
theorem label_cases (t : Tree) (c : Target) :
    (t.Nameable c ∧ ∃ name, t.label c = .ok name) ∨
      ∃ x err, c = .element x ∧ ¬ t.Nameable c ∧ t.value x = .error err ∧
        t.label c = .error err := by
  cases c with
  | member x v => exact .inl ⟨trivial, _, rfl⟩
  | element x =>
    cases he : t.element? x with
    | none =>
      refine .inr ⟨x, _, rfl, ?_, value_of_none he, ?_⟩
      · rintro (⟨e, l, he', -⟩ | ⟨v, hv⟩)
        · cases he.symm.trans he'
        · cases (value_of_none he).symm.trans hv
      · rw [label, element_of_none he]
        rfl
    | some e =>
      rw [label, element_eq_ok_iff.2 he]
      simp only [bind, Except.bind]
      split
      · next l hl => exact .inl ⟨.inl ⟨e, l, he, hl⟩, _, rfl⟩
      · next hno =>
        cases hv : t.value x with
        | ok v => exact .inl ⟨.inr ⟨v, hv⟩, _, rfl⟩
        | error err =>
          refine .inr ⟨x, err, rfl, ?_, hv, rfl⟩
          rintro (⟨e', l, he', hl⟩ | ⟨v, hv'⟩)
          · obtain rfl : e = e' := Option.some.inj (he.symm.trans he')
            exact hno l hl
          · cases hv.symm.trans hv'

/-- A candidate with a label can be named. -/
theorem nameable_of_label {name : String} (h : t.label c = .ok name) : t.Nameable c := by
  obtain ⟨hname, -⟩ | ⟨x, err, -, -, -, herr⟩ := t.label_cases c
  · exact hname
  · cases herr.symm.trans h

/-- Candidates that can be named all have labels. -/
theorem exists_labels (h : ∀ c ∈ found, t.Nameable c) :
    ∃ labels, found.mapM t.label = .ok labels := by
  refine exists_mapM_eq_ok fun c hc => ?_
  obtain ⟨-, hname⟩ | ⟨x, err, -, hno, -⟩ := t.label_cases c
  · exact hname
  · exact absurd (h c hc) hno

/-- Candidates with labels can all be named. -/
theorem nameable_of_labels (h : found.mapM t.label = .ok labels) : ∀ c ∈ found, t.Nameable c := by
  intro c hc
  obtain ⟨name, -, hname⟩ := exists_mem_of_mapM h hc
  exact nameable_of_label hname

/-! ## Deciding -/

/-- How a reference that requires an instance decides on a value. -/
structure Decides (t : Tree) (r : ReferenceType) (found : List Target) (raw : Value)
    (res : Except Error ReferenceValue) : Prop where
  /-- The value is accepted if a candidate offers it and those before that can be compared. -/
  accepted : res = .ok (.checked (some raw)) ↔ ∃ before c after, found = before ++ c :: after ∧
    t.Offers raw.toText c ∧ ∀ d ∈ before, t.Comparable d
  /-- It is refused, with the names of the candidates, if none offers it and all can be named. -/
  refused : ∀ {labels}, res = .error (.unresolved raw.toText r.path labels) ↔
    (∀ c ∈ found, ¬ t.Offers raw.toText c) ∧ found.mapM t.label = .ok labels
  /-- Otherwise the error is that of reading a candidate. -/
  failed : res = .ok (.checked (some raw)) ∨
    (∃ labels, res = .error (.unresolved raw.toText r.path labels)) ∨
    ∃ x err, .element x ∈ found ∧ ¬ t.Nameable (.element x) ∧ t.value x = .error err ∧
      res = .error err

/-- Reading never refuses a value. -/
theorem value_ne_unresolved {path : String} :
    t.value x ≠ .error (.unresolved text path labels) := by
  intro hread
  cases blocked_of_snapshotFrom hread

/-- The first candidate that offers the value decides, if those before it can be compared. -/
theorem Decides.of_accepted {before after : List Target} (hsplit : found = before ++ c :: after)
    (hoffers : t.Offers raw.toText c) (hbefore : ∀ d ∈ before, t.Comparable d) :
    t.Decides r found raw (.ok (.checked (some raw))) where
  accepted := ⟨fun _ => ⟨before, c, after, hsplit, hoffers, hbefore⟩, fun _ => rfl⟩
  refused := ⟨fun heq => (by cases heq), fun h =>
    absurd hoffers (h.1 c (hsplit ▸ List.mem_append_right _ List.mem_cons_self))⟩
  failed := .inl rfl

/-- If no candidate offers the value it is refused, with the labels of all. -/
theorem Decides.of_refused (hnone : ∀ c ∈ found, ¬ t.Offers raw.toText c)
    (hlabels : found.mapM t.label = .ok labels) :
    t.Decides r found raw (.error (.unresolved raw.toText r.path labels)) where
  accepted := by
    refine ⟨fun heq => (by cases heq), ?_⟩
    rintro ⟨before, c, after, hsplit, hoffers, -⟩
    exact absurd hoffers (hnone c (hsplit ▸ List.mem_append_right _ List.mem_cons_self))
  refused := by
    intro labels'
    rw [hlabels]
    constructor
    · intro heq
      cases heq
      exact ⟨hnone, rfl⟩
    · rintro ⟨-, heq⟩
      cases heq
      rfl
  failed := .inr (.inl ⟨labels, rfl⟩)

/-- A candidate that cannot be named hands its error on, unless one before it accepts. -/
theorem Decides.of_failed (hx : .element x ∈ found) (hunnamed : ¬ t.Nameable (.element x))
    (hread : t.value x = .error err) (hno : t.anyAdmits raw found ≠ .ok true) :
    t.Decides r found raw (.error err) where
  accepted := by
    refine ⟨fun heq => (by cases heq), ?_⟩
    rintro ⟨before, c, after, rfl, hoffers, hbefore⟩
    exact absurd (anyAdmits_of_offers hoffers hbefore) hno
  refused := by
    refine ⟨fun heq => ?_, fun h => absurd (nameable_of_labels h.2 _ hx) hunnamed⟩
    rw [Except.error.inj heq] at hread
    exact absurd hread value_ne_unresolved
  failed := .inr (.inr ⟨x, err, hx, hunnamed, hread, rfl⟩)

/-- How a value is chosen where an instance is required. -/
theorem choose_of_required (hreq : r.requiresInstance = true) (hraw : raw.isEmpty = false)
    (t : Tree) (found : List Target) :
    t.choose r found raw = t.anyAdmits raw found >>= fun b =>
      if b then pure (.checked (some raw))
      else found.mapM t.label >>= fun labels => throw (.unresolved raw.toText r.path labels) := by
  rw [choose, hreq, hraw]
  rfl

/-- What is chosen is decided on by the candidates. -/
theorem decides_choose (hreq : r.requiresInstance = true) (hraw : raw.isEmpty = false) (t : Tree)
    (found : List Target) : t.Decides r found raw (t.choose r found raw) := by
  have hasked := t.askedAll_anyAdmits raw found
  rw [choose_of_required hreq hraw]
  generalize hany : t.anyAdmits raw found = answer at hasked
  cases hasked with
  | accepted hsplit hoffers hbefore => exact .of_accepted hsplit hoffers hbefore
  | refused hall =>
    cases hlabels : found.mapM t.label with
    | ok labels => exact .of_refused (fun c hc => (hall c hc).1) hlabels
    | error err =>
      obtain ⟨c, hc, hlabel⟩ := exists_of_mapM_eq_error hlabels
      obtain ⟨-, name, hname⟩ | ⟨x, err', rfl, hunnamed, hread, hlabel'⟩ := t.label_cases c
      · cases hlabel.symm.trans hname
      · obtain rfl := Except.error.inj (hlabel.symm.trans hlabel')
        exact .of_failed hc hunnamed hread (by simp [hany])
  | failed hsplit hbefore hread hno =>
    have hx := hsplit ▸ List.mem_append_right _ List.mem_cons_self
    exact .of_failed hx (fun hname => hno hname.comparable) hread (by simp [hany])

/-- As long as all candidates can be named, it is what they offer that decides. -/
theorem Decides.of_nameable (h : t.Decides r found raw res) (hname : ∀ c ∈ found, t.Nameable c) :
    (res = .ok (.checked (some raw)) ↔ ∃ c ∈ found, t.Offers raw.toText c) ∧
      ((¬ ∃ c ∈ found, t.Offers raw.toText c) → ∃ labels, found.mapM t.label = .ok labels ∧
        res = .error (.unresolved raw.toText r.path labels)) := by
  refine ⟨h.accepted.trans ⟨?_, ?_⟩, fun hno => ?_⟩
  · rintro ⟨before, c, after, rfl, hoffers, -⟩
    exact ⟨c, List.mem_append_right _ List.mem_cons_self, hoffers⟩
  · rintro ⟨c, hc, hoffers⟩
    obtain ⟨before, after, hsplit⟩ := List.append_of_mem hc
    exact ⟨before, c, after, hsplit, hoffers, fun d hd =>
      (hname d (hsplit ▸ List.mem_append_left _ hd)).comparable⟩
  · obtain ⟨labels, hlabels⟩ := exists_labels hname
    exact ⟨labels, hlabels, h.refused.2 ⟨fun c hc hoffers => hno ⟨c, hc, hoffers⟩, hlabels⟩⟩

/-! ## The order of registration -/

/-- Nothing differs but the order in which targets were registered. -/
structure Rearranged (t t' : Tree) : Prop where
  slots : t'.slots = t.slots
  targetsAt : ∀ path, (t'.registry.targetsAt path).Perm (t.registry.targetsAt path)

/-- The same answer, but for the order in which the candidates are named. -/
def SameAnswer (r : ReferenceType) (raw : Value) (res res' : Except Error ReferenceValue) : Prop :=
  res' = res ∨ ∃ labels labels', labels'.Perm labels ∧
    res = .error (.unresolved raw.toText r.path labels) ∧
    res' = .error (.unresolved raw.toText r.path labels')

namespace Rearranged

/-- Rearranging the registry changes no element. -/
theorem element? (h : t.Rearranged t') (x : ElementId) : t'.element? x = t.element? x := by
  rw [Tree.element?, Tree.element?, h.slots]

/-- The same targets are found in another order. -/
theorem targetsFrom_perm (h : t.Rearranged t') (hr : t.registry.Tidy) (hr' : t'.registry.Tidy)
    (e : Element) (path : String) : (t'.targetsFrom e path).Perm (t.targetsFrom e path) := by
  unfold targetsFrom
  split
  · exact Registry.lookup_perm hr hr' h.targetsAt _ _
  · exact .refl _

/-- A single target is found if it was found. -/
theorem targetsFrom_eq_singleton_iff (h : t.Rearranged t') (hr : t.registry.Tidy)
    (hr' : t'.registry.Tidy) {path : String} :
    t'.targetsFrom e path = [c] ↔ t.targetsFrom e path = [c] := by
  have hperm := h.targetsFrom_perm hr hr' e path
  exact ⟨fun hone => List.perm_singleton.1 (hone ▸ hperm.symm),
    fun hone => List.perm_singleton.1 (hone ▸ hperm)⟩

/-- Pointers lead to a target alone in whatever order there is, so everything reads the same. -/
theorem snapshotFrom (h : t.Rearranged t') (hr : t.registry.Tidy) (hr' : t'.registry.Tidy)
    (fuel : Nat) (x : ElementId) : t'.snapshotFrom fuel false x = t.snapshotFrom fuel false x := by
  induction fuel generalizing x with
  | zero => rfl
  | succ fuel ih =>
    have hnamed : t'.readNamed fuel false = t.readNamed fuel false := funext fun m => by
      rw [readNamed, readNamed, ih]
    cases he : t.element? x with
    | none =>
      have he' : t'.element? x = none := (h.element? x).trans he
      rw [Tree.snapshotFrom, Tree.snapshotFrom, element_of_none he, element_of_none he']
      rfl
    | some e =>
      have he' : t'.element? x = some e := (h.element? x).trans he
      cases hc : e.content with
      | container =>
        rw [snapshotFrom_container he hc, snapshotFrom_container he' hc, shownChildren_false,
          shownChildren_false, hnamed]
      | list l => rw [snapshotFrom_list he hc, snapshotFrom_list he' hc, hnamed]
      | leaf slot =>
        rw [Tree.snapshotFrom, Tree.snapshotFrom, element_eq_ok_iff.2 he, element_eq_ok_iff.2 he']
        simp only [bind, Except.bind, hc]
        split
        · next path hvalue =>
          have hperm := h.targetsFrom_perm hr hr' e path
          have hlen := hperm.length_eq
          generalize t'.targetsFrom e path = found' at hperm hlen
          generalize t.targetsFrom e path = found at hperm hlen
          by_cases hone : found.length = 1
          · obtain ⟨target, rfl⟩ := List.length_eq_one_iff.1 hone
            obtain rfl := List.perm_singleton.1 hperm
            cases target with
            | element y => exact ih y
            | member y v => rfl
          · have hone' : found'.length ≠ 1 := hlen ▸ hone
            split
            · exact absurd rfl hone'
            · exact absurd rfl hone'
            · split
              · exact absurd rfl hone
              · exact absurd rfl hone
              · rw [hlen]
        all_goals rfl
      | leafList l =>
        rw [Tree.snapshotFrom, Tree.snapshotFrom, element_eq_ok_iff.2 he, element_eq_ok_iff.2 he']
        simp only [bind, Except.bind, hc]
      | custom content =>
        rw [Tree.snapshotFrom, Tree.snapshotFrom, element_eq_ok_iff.2 he, element_eq_ok_iff.2 he']
        simp only [bind, Except.bind, hc]

/-- Nothing reads differently. -/
theorem value (h : t.Rearranged t') (hr : t.registry.Tidy) (hr' : t'.registry.Tidy)
    (x : ElementId) : t'.value x = t.value x := by
  rw [Tree.value, Tree.value, snapshot, snapshot, h.slots, h.snapshotFrom hr hr']

theorem offers_iff (h : t.Rearranged t') (hr : t.registry.Tidy) (hr' : t'.registry.Tidy) :
    t'.Offers text c ↔ t.Offers text c := by
  cases c with
  | member x v =>
    constructor <;>
      intro hoffers <;>
      cases hoffers with | member htext => exact .member htext
  | element x =>
    cases he : t.element? x with
    | none =>
      have he' : t'.element? x = none := (h.element? x).trans he
      exact ⟨fun hoffers => absurd he' hoffers.element?_ne_none,
        fun hoffers => absurd he hoffers.element?_ne_none⟩
    | some e =>
      rw [offers_element_iff he, offers_element_iff ((h.element? x).trans he), h.value hr hr']

/-- No candidate has another label. -/
theorem label (h : t.Rearranged t') (hr : t.registry.Tidy) (hr' : t'.registry.Tidy) :
    t'.label = t.label := by
  funext c
  cases c with
  | member x v => rfl
  | element x => rw [Tree.label, Tree.label, element, element, h.element?, h.value hr hr']

theorem nameable_iff (h : t.Rearranged t') (hr : t.registry.Tidy) (hr' : t'.registry.Tidy) :
    t'.Nameable c ↔ t.Nameable c := by
  cases c with
  | member x v => exact Iff.rfl
  | element x => rw [Nameable, Nameable, h.element?, h.value hr hr']

theorem isAlias_iff (h : t.Rearranged t') (hr : t.registry.Tidy) (hr' : t'.registry.Tidy) :
    t'.IsAlias e r ↔ t.IsAlias e r := by
  exact exists_congr fun z => exists_congr fun ze =>
    and_congr (h.targetsFrom_eq_singleton_iff hr hr') (by rw [h.element?])

/-- Candidates that can be named give the same answer in another order. -/
theorem sameAnswer (h : t.Rearranged t') (hr : t.registry.Tidy) (hr' : t'.registry.Tidy)
    (hperm : found'.Perm found)
    (hname : ∀ c ∈ found, t.Nameable c) (hres : t.Decides r found raw res)
    (hres' : t'.Decides r found' raw res') :
    SameAnswer r raw res res' := by
  have hname' : ∀ c ∈ found', t'.Nameable c := fun c hc =>
    (h.nameable_iff hr hr').2 (hname c (hperm.mem_iff.1 hc))
  have hoffers : (∃ c ∈ found', t'.Offers raw.toText c) ↔ ∃ c ∈ found, t.Offers raw.toText c :=
    exists_congr fun c => and_congr hperm.mem_iff (h.offers_iff hr hr')
  obtain ⟨haccepted, hrefused⟩ := hres.of_nameable hname
  obtain ⟨haccepted', hrefused'⟩ := hres'.of_nameable hname'
  by_cases hsome : ∃ c ∈ found, t.Offers raw.toText c
  · exact .inl ((haccepted'.2 (hoffers.2 hsome)).trans (haccepted.2 hsome).symm)
  · obtain ⟨labels, hlabels, heq⟩ := hrefused hsome
    obtain ⟨labels', hlabels', heq'⟩ := hrefused' (mt hoffers.1 hsome)
    refine .inr ⟨labels, labels', ?_, heq, heq'⟩
    rw [h.label hr hr'] at hlabels'
    exact perm_of_mapM hperm hlabels hlabels'

end Rearranged

/-! ## Sessions -/

/-- Where the path does not lead to a leaf alone, the candidates decide. -/
theorem on_resolveReference (he : t.element? x = some e) (hreg : e.registers = true)
    (hreq : r.requiresInstance = true) (hraw : raw.isEmpty = false) (hno : ¬ t.IsAlias e r) :
    (resolveReference r x raw).on t = (t.choose r (t.targetsFrom e r.path) raw, t) := by
  have hel : t.element x = .ok e := element_eq_ok_iff.2 he
  simp only [resolveReference, resolveWith, on_bind, on_reading, on_get, hel, hreg, Bool.not_true,
    Bool.false_eq_true, ↓reduceIte]
  split
  · next z hz =>
    cases hze : t.element? z with
    | none =>
      simp only [on_bind, on_get, element_of_none hze, choose_of_required hreq hraw, hz,
        anyAdmits, admits]
      rfl
    | some ze =>
      have hleaf : ze.isLeaf = false :=
        Bool.not_eq_true _ ▸ fun hleaf => hno ⟨z, ze, hz, hze, hleaf⟩
      simp only [on_bind, on_get, element_eq_ok_iff.2 hze, hleaf, Bool.false_eq_true,
        ↓reduceIte, on_pure, on_reading, hz]
  · rw [on_bind, on_pure]
    rfl

/-- **Required instances** are decided on by the candidates that the path leads to, asked in order,
and the tree stays as it is.  As long as all candidates can be named, the value is accepted just if
one of them offers it, and is refused otherwise; and in a session the order in which they were
registered does not matter.  Where new elements got places of their own and nothing leads in a
circle, an element can be read just if it does not read on to a broken pointer, and the error names
that pointer's path. -/
theorem required_instance (he : t.element? x = some e) (hreg : e.registers = true)
    (hreq : r.requiresInstance = true) (hraw : raw.isEmpty = false) (hno : ¬ t.IsAlias e r) :
    ∃ res, (resolveReference r x raw).on t = (res, t) ∧
      t.Decides r (t.targetsFrom e r.path) raw res ∧
      ((∀ c ∈ t.targetsFrom e r.path, t.Nameable c) →
        (res = .ok (.checked (some raw)) ↔ ∃ c ∈ t.targetsFrom e r.path, t.Offers raw.toText c) ∧
        ((¬ ∃ c ∈ t.targetsFrom e r.path, t.Offers raw.toText c) →
          ∃ labels, (t.targetsFrom e r.path).mapM t.label = .ok labels ∧
            res = .error (.unresolved raw.toText r.path labels)) ∧
        ∀ {admits admits' t'}, Reaches admits {} t → Reaches admits' {} t' → t.Rearranged t' →
          ∃ res', (resolveReference r x raw).on t' = (res', t') ∧ SameAnswer r raw res res') ∧
      (Reaches Seated {} t → t.Acyclic → ∀ y, .element y ∈ t.targetsFrom e r.path →
        ((∃ v, t.value y = .ok v) ↔ ∀ path k, ¬ t.Broken y path k) ∧
        ∀ err, t.value y = .error err → ∃ path k, t.Broken y path k ∧
          err = .invalidPointer path k) := by
  have hdecides := decides_choose hreq hraw t (t.targetsFrom e r.path)
  refine ⟨_, on_resolveReference he hreg hreq hraw hno, hdecides,
    fun hname => ?_, fun h hacyclic y hy => ?_⟩
  · obtain ⟨haccepted, hrefused⟩ := hdecides.of_nameable hname
    refine ⟨haccepted, hrefused, fun {admits admits' t'} h h' hre => ?_⟩
    have hr := (accounts_of_reaches h).tidy
    have hr' := (accounts_of_reaches h').tidy
    have he' : t'.element? x = some e := (hre.element? x).trans he
    refine ⟨_, on_resolveReference he' hreg hreq hraw (mt (hre.isAlias_iff hr hr').1 hno), ?_⟩
    exact hre.sameAnswer hr hr' (hre.targetsFrom_perm hr hr' e r.path) hname hdecides
      (decides_choose hreq hraw t' _)
  · have hi := intact_of_reaches h
    obtain ⟨ye, hye⟩ := hi.exists_target hy
    refine ⟨hi.exists_value_iff hacyclic hye, fun err hread => ?_⟩
    obtain ⟨path, k, heq, hbroken⟩ := hi.broken_of_value hacyclic hye hread
    exact ⟨path, k, hbroken, heq⟩

/-! ## A session -/

/-- A leaf, a list of references to it, and a leaf by itself. -/
def lending : Blueprint :=
  .container
    [⟨"t", none, .leaf .string⟩,
      ⟨"l", none,
        .list ⟨⟨["name"]⟩,
          [⟨"name", none, .leaf .string⟩, ⟨"p", none, .leaf (.reference ⟨"/t", false⟩)⟩], true⟩⟩,
      ⟨"c", none, .leaf .string⟩]

/-- The first reference became an alias of the leaf, the leaf was removed, and now the second one
holds a value. -/
def lent : Tree :=
  let made := (Operation.instantiate lending { name := "root", registers := true }).after {}
  let one := (Operation.add ⟨2⟩ (some "a")).after made
  let two := (Operation.add ⟨2⟩ (some "b")).after one
  let aliased := (Operation.setLeaf ⟨6⟩ (.text "v")).after two
  let removed := (Operation.removeSubtree ⟨1⟩).after aliased
  (Operation.setLeaf ⟨9⟩ (.text "v")).after removed

theorem reaches_lent : Reaches Seated {} lent := by
  have hstart : Reaches Seated {} {} := .refl
  have hmade :=
    hstart.andThen (.instantiate lending { name := "root", registers := true }) (.inl rfl)
  have hone := hmade.andThen (.add ⟨2⟩ (some "a")) trivial
  have htwo := hone.andThen (.add ⟨2⟩ (some "b")) trivial
  have haliased := htwo.andThen (.setLeaf ⟨6⟩ (.text "v")) trivial
  have hremoved := haliased.andThen (.removeSubtree ⟨1⟩) trivial
  exact hremoved.andThen (.setLeaf ⟨9⟩ (.text "v")) trivial

/-- The root leads on to all, the list to its entries, and these to their leaves. -/
theorem acyclic_lent : lent.Acyclic :=
  acyclic_of_rank (fun x =>
    if x.index = 0 then 3 else if x.index = 2 then 2 else if x.index % 3 = 1 then 1 else 0)
    (by decide +kernel)

/-- What is registered under a path, seen from the leaf by itself: one of two candidates is the leaf
of the given id, and that has a text. -/
theorem lent_candidates : ∀ m ∈ [("/l/name", 8, "b"), ("/l/p", 9, "v")],
    (lent.element? ⟨3⟩).any (fun e => e.registers && (lent.targetsFrom e m.1).length == 2 &&
        (lent.targetsFrom e m.1).any (·.same (.element ⟨m.2.1⟩))) = true ∧
      (lent.element? ⟨m.2.1⟩).any (fun e => (leafType e).isOk) = true ∧
      ((lent.value ⟨m.2.1⟩).toOption.map Value.toText) = some m.2.2 := by
  decide +kernel

/-- A candidate offers the value at each of the paths. -/
theorem exists_candidate (path : String) (n : Nat) (text : String)
    (hm : (path, n, text) ∈ [("/l/name", 8, "b"), ("/l/p", 9, "v")]) :
    ∃ e, lent.element? ⟨3⟩ = some e ∧ e.registers = true ∧ ¬ lent.IsAlias e ⟨path, true⟩ ∧
      ∃ c ∈ lent.targetsFrom e path, lent.Offers text c := by
  obtain ⟨hcaller, hleaf, hvalue⟩ := lent_candidates _ hm
  obtain ⟨e, he, hfound⟩ := (Option.any_eq_true _ _).1 hcaller
  obtain ⟨⟨hreg, hlen⟩, hmem⟩ : (e.registers = true ∧ (lent.targetsFrom e path).length = 2) ∧
      ∃ c ∈ lent.targetsFrom e path, c.same (.element ⟨n⟩) = true := by
    simpa using hfound
  obtain ⟨c, hc, hsame⟩ := hmem
  have helement : c = .element ⟨n⟩ := by
    cases c with
    | member y v => cases hsame
    | element y => rw [beq_iff_eq.1 hsame]
  obtain ⟨ye, hye, hok⟩ := (Option.any_eq_true _ _).1 hleaf
  obtain ⟨type, htype⟩ : ∃ type, leafType ye = .ok type := by
    cases h : leafType ye with
    | ok type => exact ⟨type, rfl⟩
    | error err =>
      rw [h] at hok
      cases hok
  obtain ⟨slot, hslot, -⟩ := leafType_eq_ok_iff.1 htype
  obtain ⟨v, hv, htext⟩ := Option.map_eq_some_iff.1 hvalue
  have hread : lent.value ⟨n⟩ = .ok v := by
    cases h : lent.value ⟨n⟩ with
    | ok w =>
      rw [h] at hv
      rw [Option.some.inj hv]
    | error err =>
      rw [h] at hv
      cases hv
  refine ⟨e, he, hreg, ?_, c, hc, ?_⟩
  · rintro ⟨z, ze, hone, -⟩
    rw [hone] at hlen
    cases hlen
  · rw [helement]
    exact .value hye (by rw [hslot]; rfl) (by simp [hslot]) hread htext

/-- A name of an entry is accepted. -/
theorem required_lent : Reaches Seated {} lent ∧ lent.Acyclic ∧ ∃ e, lent.element? ⟨3⟩ = some e ∧
    (resolveReference ⟨"/l/name", true⟩ ⟨3⟩ (.text "b")).on lent =
      (.ok (.checked (some (.text "b"))), lent) := by
  obtain ⟨e, he, hreg, hno, hoffers⟩ := exists_candidate "/l/name" 8 "b" (by simp)
  have hlabels : (lent.element? ⟨3⟩).all (fun e =>
      ((lent.targetsFrom e "/l/name").mapM lent.label).isOk) = true := by
    decide +kernel
  have hname : ∀ c ∈ lent.targetsFrom e "/l/name", lent.Nameable c := by
    rw [he, Option.all_some] at hlabels
    generalize hlist : (lent.targetsFrom e "/l/name").mapM lent.label = labels at hlabels
    obtain err | labels := labels
    · cases hlabels
    · exact nameable_of_labels hlist
  have hgiven : (Value.text "b").isEmpty = false := rfl
  have hreq : (ReferenceType.mk "/l/name" true).requiresInstance = true := rfl
  obtain ⟨res, hon, -, hexact, -⟩ := required_instance he hreg hreq hgiven hno
  rw [(hexact hname).1.2 hoffers] at hon
  exact ⟨reaches_lent, acyclic_lent, e, he, hon⟩

/-- But a value that the second reference holds is not accepted, for the first one cannot be
read. -/
theorem not_required_lent :
    ¬ ∀ (t : Tree) (x : ElementId) (e : Element) (r : ReferenceType) (raw : Value),
    Reaches Seated {} t → t.Acyclic → t.element? x = some e → e.registers = true →
      r.requiresInstance = true → raw.isEmpty = false → ¬ t.IsAlias e r →
      (((resolveReference r x raw).on t).1 = .ok (.checked (some raw)) ↔
        ∃ c ∈ t.targetsFrom e r.path, t.Offers raw.toText c) := by
  intro hall
  obtain ⟨e, he, hreg, hno, hoffers⟩ := exists_candidate "/l/p" 9 "v" (by simp)
  have hfails : ((resolveReference ⟨"/l/p", true⟩ ⟨3⟩ (.text "v")).on lent).1.isOk = false := by
    decide +kernel
  rw [(hall lent ⟨3⟩ e ⟨"/l/p", true⟩ (.text "v") reaches_lent acyclic_lent he hreg rfl rfl hno).2
    hoffers] at hfails
  cases hfails

end Tree

end DataTree
