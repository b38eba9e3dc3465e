import DataTree.Proofs.Structure.Clear

/-!
# DataTree.Proofs.Structure.Unset

What unsetting does to a tree whose structure is sound.

An element is `Within` another one if it is reached by going down without passing
through a list.  Unsetting an element always succeeds: it empties everything within
the element, removes what is below the lists there, and leaves everything else as it
was (`Sound.unset`).
-/

namespace DataTree.Tree

open Edit Outcome

variable {t t' : Tree} {pending : Set ElementId} {id c x : ElementId} {e : Element}

/-! ## Going down without lists -/

/-- The container `id` has `c` as a child. -/
def Contains (t : Tree) (id c : ElementId) : Prop :=
  ∃ e name, t.element? id = some e ∧ (name, c) ∈ e.children

/-- What is reached from `id` by going down without passing through a list. -/
def Within (t : Tree) : ElementId → ElementId → Prop := Relation.ReflTransGen t.Contains

theorem Contains.above (h : t.Contains id c) : t.Above id c := by
  obtain ⟨e, name, he, hm⟩ := h
  exact ⟨e, he, Element.mem_below_of_child hm⟩

theorem Within.under (h : t.Within id x) : t.Under id x :=
  Relation.ReflTransGen.mono (fun p c (hc : t.Contains p c) => hc.above) _ _ h

/-- An element within another one is there too, and so is everything between them. -/
theorem Sound.exists_of_within (h : Sound t pending) (he : t.element? id = some e)
    (hw : t.Within id x) : ∃ xe, t.element? x = some xe := by
  obtain rfl | ⟨p, -, hc⟩ := Relation.ReflTransGen.cases_tail_iff _ _ _ |>.1 hw
  · exact ⟨e, he⟩
  · obtain ⟨-, -, xe, hxe, -⟩ := h.of_above hc.above
    exact ⟨xe, hxe⟩

/-- Only containers have something within them. -/
theorem Sound.within_of_content (h : Sound t pending) (he : t.element? id = some e)
    (hc : e.content ≠ .container) (hw : t.Within id x) : x = id := by
  obtain rfl | ⟨c, ⟨e', name, he', hm⟩, -⟩ := Relation.ReflTransGen.cases_head_iff.1 hw
  · rfl
  · obtain rfl : e = e' := Option.some.inj (he.symm.trans he')
    rw [h.children_eq_nil he hc] at hm
    cases hm

/-- Looking for what holds data ends, and finds all that is no container. -/
theorem holdersFrom_spec (h : Sound t pending) {fuel : Nat} (he : t.element? id = some e)
    (hfuel : t.slots.size ≤ id.index + fuel) :
    ∃ hs, t.holdersFrom fuel id = .ok hs ∧ ∀ x, x ∈ hs ↔
      t.Within id x ∧ ∃ xe, t.element? x = some xe ∧ xe.content ≠ .container := by
  induction fuel generalizing id e with
  | zero =>
    have hlt := index_lt_of_element? he
    omega
  | succ fuel ih =>
    by_cases hcont : e.content = .container
    · have hbelow : ∀ c ∈ e.children.map Prod.snd, ∃ hs, t.holdersFrom fuel c = .ok hs ∧
          ∀ x, x ∈ hs ↔ t.Within c x ∧ ∃ xe, t.element? x = some xe ∧ xe.content ≠ .container := by
        intro c hc
        obtain ⟨-, hlt, ce, hce, -⟩ := h.of_above ⟨e, he, List.mem_append_left _ hc⟩
        exact ih hce (by omega)
      have hok : ∀ c ∈ e.children.map Prod.snd, ∃ hs, t.holdersFrom fuel c = .ok hs := by
        intro c hc
        obtain ⟨hs, hh, -⟩ := hbelow c hc
        exact ⟨hs, hh⟩
      obtain ⟨below, hb⟩ := exists_mapM_eq_ok hok
      refine ⟨below.flatten, ?_, fun x => ?_⟩
      · rw [holdersFrom, bind_eq_ok]
        refine ⟨e, element_eq_ok_iff.2 he, ?_⟩
        rw [if_pos (Content.isContainer_iff.2 hcont)]
        exact bind_eq_ok.2 ⟨below, hb, rfl⟩
      · rw [List.mem_flatten, Within, Relation.ReflTransGen.cases_head_iff]
        constructor
        · intro hx
          obtain ⟨hs, hm, hx⟩ := hx
          obtain ⟨c, hc, hcs⟩ := mem_of_mapM hb hm
          obtain ⟨hs', hs', hiff⟩ := hbelow c hc
          obtain rfl := Except.ok.inj (hs'.symm.trans hcs)
          obtain ⟨hw, hxe⟩ := (hiff x).1 hx
          obtain ⟨⟨name, c⟩, hm, rfl⟩ := List.mem_map.1 hc
          exact ⟨.inr ⟨c, ⟨e, name, he, hm⟩, hw⟩, hxe⟩
        · intro hx
          obtain ⟨rfl | ⟨c, ⟨e', name, he', hm⟩, hw⟩, xe, hxe, hne⟩ := hx
          · obtain rfl : e = xe := Option.some.inj (he.symm.trans hxe)
            exact absurd hcont hne
          · obtain rfl : e = e' := Option.some.inj (he.symm.trans he')
            have hc := List.mem_map_of_mem (f := Prod.snd) hm
            obtain ⟨hs, hh, hcs⟩ := exists_mem_of_mapM hb hc
            obtain ⟨hs', hs', hiff⟩ := hbelow c hc
            obtain rfl := Except.ok.inj (hs'.symm.trans hcs)
            exact ⟨_, hh, (hiff x).2 ⟨hw, xe, hxe, hne⟩⟩
    · refine ⟨[id], ?_, fun x => ?_⟩
      · rw [holdersFrom, bind_eq_ok]
        refine ⟨e, element_eq_ok_iff.2 he, ?_⟩
        rw [if_neg fun hc => hcont (Content.isContainer_iff.1 hc)]
        rfl
      · rw [List.mem_singleton]
        constructor
        · intro hx
          subst hx
          exact ⟨.refl, e, he, hcont⟩
        · intro hx
          exact h.within_of_content he hcont hx.1

theorem holders_spec (h : Sound t pending) (he : t.element? id = some e) :
    ∃ hs, t.holders id = .ok hs ∧ ∀ x, x ∈ hs ↔
      t.Within id x ∧ ∃ xe, t.element? x = some xe ∧ xe.content ≠ .container :=
  holdersFrom_spec h he (by omega)

/-- Nothing within an element is below something else there that is no container. -/
theorem Sound.eq_of_within_of_under (h : Sound t pending) {k : ElementId} (hk : t.Within id k)
    {ke : Element} (hke : t.element? k = some ke) (hcont : ke.content ≠ .container)
    (hx : t.Within id x) (hu : t.Under k x) : x = k := by
  induction hx with
  | refl =>
    have hle := h.index_le_of_under hu
    obtain rfl | ⟨p, hp, hc⟩ := Relation.ReflTransGen.cases_tail_iff _ _ _ |>.1 hk
    · rfl
    · have hlt := (h.of_above hc.above).2.1
      have hle' := h.index_le_of_under (Within.under hp)
      omega
  | @tail p x hp hc ih =>
    by_contra hne
    obtain ⟨xe, q, hxe, hq, hqu, -⟩ := h.parent_of_under hu hne
    obtain ⟨-, -, xe', hxe', hp'⟩ := h.of_above hc.above
    obtain rfl : xe = xe' := Option.some.inj (hxe.symm.trans hxe')
    obtain rfl : q = p := Option.some.inj (hq.symm.trans hp')
    obtain rfl := ih hqu
    obtain ⟨pe, name, hpe, hm⟩ := hc
    obtain rfl : ke = pe := Option.some.inj (hke.symm.trans hpe)
    rw [h.children_eq_nil hke hcont] at hm
    cases hm

/-- What is under an element is within it, or below something there that is no container. -/
theorem Sound.within_or_below (h : Sound t pending) (hu : t.Under id x) :
    t.Within id x ∨ ∃ k ke, t.Within id k ∧ t.element? k = some ke ∧ ke.content ≠ .container ∧
      t.Under k x ∧ x ≠ k := by
  induction hu with
  | refl => exact .inl .refl
  | @tail p x hp ha ih =>
    obtain hw | ⟨k, ke, hk, hke, hc, hku, -⟩ := ih
    · have ⟨pe, hpe, hx⟩ := ha
      by_cases hc : pe.content = .container
      · rw [Element.below, hc] at hx
        obtain hx | hx := List.mem_append.1 hx
        · obtain ⟨⟨name, x⟩, hm, rfl⟩ := List.mem_map.1 hx
          exact .inl (hw.tail ⟨pe, name, hpe, hm⟩)
        · cases hx
      · refine .inr ⟨p, pe, hw, hpe, hc, .single ha, fun hxp => ?_⟩
        have hlt := (h.of_above ha).2.1
        rw [hxp] at hlt
        exact Nat.lt_irrefl _ hlt
    · refine .inr ⟨k, ke, hk, hke, hc, hku.tail ha, fun hxk => ?_⟩
      have hlt := (h.of_above ha).2.1
      have hle := h.index_le_of_under hku
      rw [hxk] at hlt
      omega

/-! ## Unsetting -/

/-- Every element is one that a schema can declare. -/
def Declared (t : Tree) : Prop := ∀ ⦃id e⦄, t.element? id = some e → e.content.IsDeclared

theorem Declared.shrinks (h : t.Declared) (hs : t.Shrinks t') : t'.Declared := by
  intro id e' he'
  obtain ⟨e, he, hse⟩ := hs.element he'
  exact Content.isDeclared_of_bare (Element.content_of_bare hse.bare) (h he)

/-- What unsetting an element leaves: everything within it without its data, nothing
below the lists there, and everything else as it was. -/
structure Unsets (id : ElementId) (t t' : Tree) : Prop where
  within : ∀ {x}, t.Within id x → t'.element? x = (t.element? x).map Element.emptied
  gone : ∀ {x}, t.Under id x → ¬ t.Within id x → t'.element? x = none
  stays : ∀ {x}, ¬ t.Under id x → t'.element? x = t.element? x
  registry : (∀ {x e}, t.Within id x → t.element? x = some e → e.content.holdsData = false) →
    t'.registry = t.registry

/-- Clearing what holds data, one element after another. -/
theorem Sound.clearAll (h : Sound t pending) (hd : t.Declared) {hs : List ElementId}
    (hhs : ∀ x, x ∈ hs ↔ t.Within id x ∧ ∃ xe, t.element? x = some xe ∧ xe.content ≠ .container) :
    (hs.forM Tree.clear).Ensures t (fun _ t' => Sound t' pending ∧ t.Shrinks t' ∧
        (∀ {k ke}, k ∈ hs → t.element? k = some ke → t'.element? k = some ke.emptied) ∧
        (∀ {x}, (∀ k ∈ hs, ¬ t.Under k x) → t'.element? x = t.element? x) ∧
        ((∀ {k ke}, k ∈ hs → t.element? k = some ke → ke.content.holdsData = false) →
          t'.registry = t.registry))
      fun _ _ => False := by
  -- What is still to be cleared is as it was, or was cleared already.
  refine (ensures_forM
    (I := fun rest t' => Sound t' pending ∧ t.Shrinks t' ∧ (∀ k ∈ rest, k ∈ hs) ∧
      (∀ {k ke}, k ∈ hs → t.element? k = some ke →
        t'.element? k = some ke.emptied ∨ (k ∈ rest ∧ t'.element? k = some ke)) ∧
      (∀ {x}, (∀ k ∈ hs, ¬ t.Under k x) → t'.element? x = t.element? x) ∧
      ((∀ {k ke}, k ∈ hs → t.element? k = some ke → ke.content.holdsData = false) →
        t'.registry = t.registry))
    ?_ ⟨h, refl_of Shrinks t, fun k hk => hk, fun hk hke => .inr ⟨hk, hke⟩, fun _ => rfl,
      fun _ => rfl⟩).mono (fun _ t' hI => ?_) fun _ _ hf => hf
  rotate_left
  · obtain ⟨h', hs', -, hk, hx, hr⟩ := hI
    exact ⟨h', hs', fun hm hke => (hk hm hke).resolve_right fun hno => (by cases hno.1), hx, hr⟩
  intro k rest t' hI
  obtain ⟨h', hs', hsub, hcleared, hstays, hreg⟩ := hI
  have hk := hsub k List.mem_cons_self
  obtain ⟨hkw, ke, hke, hcont⟩ := (hhs k).1 hk
  obtain ⟨ke', hke', hem, hdata⟩ : ∃ ke', t'.element? k = some ke' ∧ ke'.emptied = ke.emptied ∧
      (ke.content.holdsData = false → ke'.content.holdsData = false) := by
    obtain hke' | ⟨-, hke'⟩ := hcleared hk hke
    · exact ⟨_, hke', by simp, fun _ => Content.holdsData_bare _⟩
    · exact ⟨_, hke', rfl, fun hd => hd⟩
  have hcont' : ke'.content ≠ .container := by
    obtain ⟨ke₁, hke₁, hse⟩ := hs'.element hke'
    obtain rfl : ke = ke₁ := Option.some.inj (hke.symm.trans hke₁)
    exact fun hc => hcont (hse.container.1 hc)
  have hclear := h'.clear hke' ((hd.shrinks hs') hke') hcont'
  have hsound := (sound_clear pending k).ensures t'
  have hshrinks := (shrinks_clear k).ensures t'
  refine ((hclear.and hsound).and hshrinks).mono (fun _ t'' hpost => ?_) fun _ _ hf => hf.1.1
  obtain ⟨⟨hc, h''⟩, hs''⟩ := hpost
  refine ⟨h'' h', trans_of Shrinks hs' hs'', fun x hx => hsub x (List.mem_cons_of_mem k hx),
    fun {x xe} hx hxe => ?_, fun {x} hx => ?_, fun hall => ?_⟩
  · by_cases hxk : x = k
    · subst hxk
      obtain rfl : ke = xe := Option.some.inj (hke.symm.trans hxe)
      exact .inl (by rw [hc.self, hem])
    · have hnot : ¬ t'.Under k x := fun hu =>
        hxk (h.eq_of_within_of_under hkw hke hcont ((hhs x).1 hx).1 (hs'.under hu))
      rw [hc.stays hnot]
      exact (hcleared hx hxe).imp_right fun hm => ⟨(List.mem_cons.1 hm.1).resolve_left hxk, hm.2⟩
  · rw [hc.stays fun hu => hx k hk (hs'.under hu), hstays hx]
  · rw [hc.registry (hdata (hall hk hke)), hreg hall]

/-- **Unsetting**: it always succeeds, empties everything within the element, removes what
is below the lists there, and changes nothing else. -/
theorem Sound.unset (h : Sound t pending) (hd : t.Declared) (he : t.element? id = some e) :
    (unset id).Ensures t (fun _ => Unsets id t) fun _ _ => False := by
  obtain ⟨hs, hholders, hhs⟩ := holders_spec h he
  rw [Tree.unset, ensures_reading_bind]
  refine ⟨fun hs' hh => ?_, fun _ hh => by rw [hholders] at hh; cases hh⟩
  obtain rfl := Except.ok.inj (hholders.symm.trans hh)
  refine (h.clearAll hd hhs).mono (fun _ t' hpost => ?_) fun _ _ hf => hf
  obtain ⟨h', hs', hcleared, hstays, hreg⟩ := hpost
  constructor
  case within =>
    intro x hw
    obtain ⟨xe, hxe⟩ := h.exists_of_within he hw
    rw [hxe, Option.map_some]
    by_cases hcont : xe.content = .container
    · rw [Element.emptied_eq_self (hd hxe) (by rw [hcont]; rfl), ← hxe]
      refine hstays fun k hk hu => ?_
      obtain ⟨hkw, ke, hke, hkc⟩ := (hhs k).1 hk
      obtain rfl := h.eq_of_within_of_under hkw hke hkc hw hu
      obtain rfl : ke = xe := Option.some.inj (hke.symm.trans hxe)
      exact hkc hcont
    · exact hcleared ((hhs x).2 ⟨hw, xe, hxe, hcont⟩) hxe
  case gone =>
    intro x hu hnw
    obtain ⟨k, ke, hk, hke, hc, hku, hne⟩ := (h.within_or_below hu).resolve_left hnw
    have hke' := hcleared ((hhs k).2 ⟨hk, ke, hke, hc⟩) hke
    cases hx : t'.element? x with
    | none => rfl
    | some xe =>
      refine absurd (eq_of_under_of_below hke' ?_
        (h.under_of_shrinks h' hs' (fun _ hy => hy) hku hx)) hne
      have hlinks : ke.emptied.content.links = [] := Content.links_eq_nil (Content.holdsData_bare _)
      rw [Element.below_eq, hlinks, List.map_nil, List.append_nil, List.map_eq_nil_iff]
      exact (h.children_eq_nil hke hc :)
  case stays =>
    intro x hx
    refine hstays fun k hk hu => hx ?_
    exact Relation.ReflTransGen.trans (Within.under ((hhs k).1 hk).1) hu
  case registry =>
    intro hall
    exact hreg fun hk hke => hall ((hhs _).1 hk).1 hke

end DataTree.Tree
