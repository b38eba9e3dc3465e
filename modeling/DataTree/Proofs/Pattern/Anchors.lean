import DataTree.Pattern.Anchored
import DataTree.Pattern.Matcher.Lemmas
import DataTree.Proofs.Pattern.Bodies

/-!
# DataTree.Proofs.Pattern.Anchors

What anchored patterns accept.

A pattern is put into a group between two anchors before it is read.  It is accepted in this form
exactly if it can be read alone and its end leaves the group to be closed, within the limits on
depth and memory; then it admits the texts that it matches from the first to the last character
(`PatternSet.reads_alone`).

All of this holds of patterns that open every group that they close.  A pattern that closes the
group it has been put into gets out of its anchors (`not_alone_unopened`).  It is accepted if what
stands behind the parenthesis that nothing opens leaves one group open again, or ends in a comment
(`Escapes.leaves_open`); then it is no longer matched as a whole (`reads_or_escapes`).
-/

namespace DataTree.Pattern

variable {cs ds : List Char} {r w : Regex} {n depth : Nat}

/-! ## Reading alone -/

/-- A text is an expression on its own, with this depth of nesting. -/
def Denotes (cs : List Char) (r : Regex) (depth : Nat) : Prop :=
  ∃ names, readBody (cs.length + 1) {} [] {} cs = .ok ⟨r, depth, names, []⟩

/-- A text denotes at most one expression. -/
theorem Denotes.unique {r' : Regex} {depth' : Nat} (h : Denotes cs r depth)
    (h' : Denotes cs r' depth') : r = r' ∧ depth = depth' := by
  obtain ⟨names, h⟩ := h
  obtain ⟨names', h'⟩ := h'
  obtain ⟨rfl, rfl, -, -⟩ := Part.mk.inj (Except.ok.inj (h.symm.trans h'))
  exact ⟨rfl, rfl⟩

theorem read_of_error {err : Fault} (h : readBody (cs.length + 1) {} [] {} cs = .error err) :
    read cs = .error err := by
  simp [read, h]

theorem read_of_ok {part : Part} (h : readBody (cs.length + 1) {} [] {} cs = .ok part) :
    read cs = if part.rest ≠ [] then .error .unopenedGroup
      else if depthLimit < part.depth then .error .tooDeep
      else if part.regex.fits then .ok part.regex else .error .tooLarge := by
  simp only [read, h, ok_bind]
  cases part.rest with
  | cons => simp
  | nil =>
    by_cases hdepth : depthLimit < part.depth <;> cases part.regex.fits <;> simp [hdepth]

/-- A text that denotes an expression opens all groups that it closes. -/
theorem Denotes.opened (h : Denotes cs r depth) : read cs ≠ .error .unopenedGroup := by
  obtain ⟨names, h⟩ := h
  simp only [read_of_ok h, ne_eq, not_true, if_false]
  split
  · exact nofun
  · split <;> exact nofun

/-- What is put behind a text is read there, and not taken for a comment. -/
def Sealable (cs : List Char) : Prop := read (cs ++ closing) = .error .unopenedGroup

/-- A text is accepted exactly if it denotes an expression within the limits. -/
theorem read_ok_iff :
    read cs = .ok r ↔ ∃ depth, Denotes cs r depth ∧ depth ≤ depthLimit ∧ r.fits = true := by
  constructor
  · intro h
    cases hbody : readBody (cs.length + 1) {} [] {} cs with
    | error err =>
      rw [read_of_error hbody] at h
      cases h
    | ok part =>
      obtain ⟨regex, depth, names, rest⟩ := part
      rw [read_of_ok hbody] at h
      split at h
      · cases h
      next hrest =>
      split at h
      · cases h
      next hdepth =>
      split at h
      · next hfits =>
        obtain rfl := Except.ok.inj h
        obtain rfl := not_not.1 hrest
        exact ⟨depth, ⟨names, hbody⟩, Nat.not_lt.1 hdepth, hfits⟩
      · cases h
  · rintro ⟨depth, ⟨names, hbody⟩, hdepth, hfits⟩
    rw [read_of_ok hbody]
    simp [Nat.not_lt.2 hdepth, hfits]

/-! ## Reading in front of the closing -/

theorem grown_alone (cs : List Char) :
    Grown (fun _ => False) cs (readBody (cs.length + 1) {} [] {} cs)
    (readBody ((cs ++ closing).length + 1) {} [] {} (cs ++ closing)) := by
  have hlength : cs.length < (cs ++ closing).length + 1 := by
    rw [List.length_append]
    omega
  rw [readBody_fuel (Nat.lt_succ_self _) hlength]
  exact (tame_readBody _ {} [] {}).grown cs

/-- An expression leaves the closing, or it has taken the closing in. -/
theorem sealable_iff (h : Denotes cs r depth) : Sealable cs ↔
    ∃ names, readBody ((cs ++ closing).length + 1) {} [] {} (cs ++ closing) =
      .ok ⟨r, depth, names, closing⟩ := by
  obtain ⟨names, h⟩ := h
  have hgrown := grown_alone cs
  rw [h] at hgrown
  unfold Sealable
  generalize hs : readBody ((cs ++ closing).length + 1) {} [] {} (cs ++ closing) = s at hgrown
  cases hgrown with
  | left =>
    refine ⟨fun _ => ⟨names, rfl⟩, fun _ => ?_⟩
    rw [read_of_ok hs]
    rfl
  | swallowed =>
    refine ⟨fun hread => ?_, fun ⟨_, hbehind⟩ => by cases hbehind⟩
    rw [read_of_ok hs] at hread
    simp only [ne_eq, not_true, if_false] at hread
    split at hread
    · cases hread
    split at hread <;> cases hread

/-- Without a comment the closing is left. -/
theorem sealable_of_no_comment (h : Denotes cs r depth) (hcomment : '#' ∉ cs) : Sealable cs := by
  refine (sealable_iff h).2 ?_
  obtain ⟨names, h⟩ := h
  have hgrown := grown_alone cs
  rw [h] at hgrown
  generalize readBody ((cs ++ closing).length + 1) {} [] {} (cs ++ closing) = s at hgrown
  cases hgrown with
  | left => exact ⟨names, rfl⟩
  | swallowed _ _ h => exact absurd h hcomment

/-- The end of a text that starts with a parenthesis leaves all of the closing behind it. -/
theorem closing_suffix (h : ')' :: ds <:+ cs ++ closing) : closing <:+ ')' :: ds := by
  rcases List.suffix_or_suffix_of_suffix (List.suffix_append cs closing) h with h | h
  · exact h
  · obtain h | h := List.suffix_cons_iff.1 h
    · rw [h]
      exact List.suffix_rfl
    · simpa using List.suffix_cons_iff.1 h

/-! ## Reading between anchors -/

/-- An expression in a group between anchors. -/
def enclosed (r : Regex) : Regex := .seq (.look .textStart) (.seq (.group false r) (.look .textEnd))

/-- The body of a pattern that has been read up to its group. -/
def opened : Body := Body.push {} (.look .textStart) 0

theorem readBody_anchor (b : List Char) (n : Nat) :
    readBody (n + 2) {} [] {} (['^', '(', '?', ':'] ++ b ++ closing) =
      readBody n {} [] {} (b ++ closing) >>= readBehind n {} opened false := by
  have hopening : readOpening {} [] ('?' :: ':' :: (b ++ closing)) =
      .ok (.group false {} [] (b ++ closing)) := by
    simp [readOpening_eq, readGroupStart, readExtension, readFlagged, readFlags,
      admitFlags, Flags.skip]
  show readBody (n + 2) {} [] {} ('^' :: '(' :: '?' :: ':' :: (b ++ closing)) = _
  have hcaret (ds : List Char) : readAtom {} {} '^' ds = .ok (opened, ds) := rfl
  rw [readBody_atom (n + 1) {} [] {} rfl (by decide) (by decide), hcaret, ok_bind,
    readBody_group n {} [] opened rfl, hopening]
  rfl

theorem readBehind_nil {fuel : Nat} {flags : Flags} {b : Body} {captures : Bool} {part : Part}
    (h : part.rest = []) : readBehind fuel flags b captures part = .error .unclosedGroup := by
  unfold readBehind
  rw [h]

theorem readBehind_closing (n : Nat) (r : Regex) (depth : Nat) (names : List String) :
    readBehind (n + 2) {} opened false ⟨r, depth, names, closing⟩ =
      .ok ⟨enclosed r, depth + 2, names, []⟩ := by
  show readBody (n + 2) {} names _ ['$'] = _
  rw [readBody_atom (n + 1) {} names _ rfl (by decide) (by decide)]
  show readBody (n + 1) {} names _ [] = _
  rw [readBody_nil n {} names _ rfl]
  simp [opened, enclosed, Body.push, Body.finish, Body.nextBranch, Body.branch, seqAll,
    altAll, jointDepth]

theorem readBody_anchored (cs : List Char) :
    readBody ((anchor cs).length + 1) {} [] {} (anchor cs) =
    readBody ((body cs ++ closing).length + 1) {} [] {} (body cs ++ closing) >>=
      readBehind ((body cs).length + 5) {} opened false := by
  have hanchor : (anchor cs).length + 1 = ((body cs).length + 5) + 2 := by
    simp only [anchor, List.length_append, List.length_cons, List.length_nil]
    omega
  have hclosing : (body cs ++ closing).length < (body cs).length + 5 := by simp [closing]
  rw [hanchor, readBody_fuel (Nat.lt_succ_self _) hclosing]
  exact readBody_anchor (body cs) _

/-- What is read of a body up to the end of its group is read of it alone: all of it, or what stands
before a parenthesis that nothing in it opens. -/
theorem alone_of_behind {part : Part}
    (hbehind : readBody ((cs ++ closing).length + 1) {} [] {} (cs ++ closing) = .ok part)
    (hend : part.rest ≠ []) :
    ∃ r depth names rest, part = ⟨r, depth, names, rest ++ closing⟩ ∧
      (rest = [] ∨ ∃ ds, rest = ')' :: ds) ∧
      readBody (cs.length + 1) {} [] {} cs = .ok ⟨r, depth, names, rest⟩ := by
  have hgrown := grown_alone cs
  rw [hbehind] at hgrown
  generalize halone : readBody (cs.length + 1) {} [] {} cs = alone at hgrown
  cases hgrown with
  | left part =>
    obtain ⟨r, depth, names, rest⟩ := part
    exact ⟨r, depth, names, rest, rfl, readBody_rest halone, rfl⟩
  | swallowed part hrest _ => exact absurd hrest hend
  | refused err _ hleft =>
    -- the parenthesis would stand at the end of the text, and leave the closing behind it
    obtain hrest | ⟨ds, hrest⟩ := readBody_rest hbehind
    · exact absurd hrest hend
    · have hsuffix : part.rest <:+ cs ++ closing := (tame_readBody _ {} [] {}).suffix hbehind
      have hclosing : closing <:+ part.rest := by
        rw [hrest] at hsuffix ⊢
        exact closing_suffix hsuffix
      exact (hleft part rfl hclosing).elim

/-- A parenthesis that a text does not open closes the group it has been put into, and what stands
behind that parenthesis is read, with the closing, behind the group. -/
def Escapes (cs : List Char) (w : Regex) (n : Nat) : Prop :=
  ∃ r depth names ds names',
    readBody (cs.length + 1) {} [] {} cs = .ok ⟨r, depth, names, ')' :: ds⟩ ∧
      readBody ((ds ++ closing).length + 1) {} names (opened.push (.group false r) (depth + 1))
        (ds ++ closing) = .ok ⟨w, n, names', []⟩

/-- A text gets out of its group by a parenthesis that it does not open. -/
theorem Escapes.unopened (h : Escapes cs w n) : read cs = .error .unopenedGroup := by
  obtain ⟨r, depth, names, ds, names', hr, -⟩ := h
  rw [read_of_ok hr]
  exact if_pos (List.cons_ne_nil _ _)

/-- A text that gets out of its group leaves another one open, which the closing closes, or ends in
a comment: what stands behind its unopened parenthesis is no expression by itself. -/
theorem Escapes.leaves_open (h : Escapes cs w n) : ∃ r depth names ds,
    readBody (cs.length + 1) {} [] {} cs = .ok ⟨r, depth, names, ')' :: ds⟩ ∧
      ('#' ∈ ds ∨ ∃ err, readBody ((ds ++ closing).length + 1) {} names
          (opened.push (.group false r) (depth + 1)) ds = .error err) := by
  obtain ⟨r, depth, names, ds, names', hr, hbehind⟩ := h
  refine ⟨r, depth, names, ds, hr, ?_⟩
  have htame := tame_readBody ((ds ++ closing).length + 1) {} names
    (opened.push (.group false r) (depth + 1))
  have hgrown : Grown _ ds (readBody _ {} names _ ds) _ := htame.grown ds
  rw [show Remainder.more ds = ds ++ closing from rfl, hbehind] at hgrown
  generalize readBody _ {} names _ ds = alone at hgrown ⊢
  generalize hs : (Except.ok ⟨w, n, names', []⟩ : Except Fault Part) = s at hgrown
  cases hgrown with
  | left part =>
    -- the closing would be left over
    have hrest : [] = part.rest ++ closing := congrArg Part.rest (Except.ok.inj hs)
    simp [closing] at hrest
  | swallowed _ _ hcomment => exact .inl hcomment
  | refused err => exact .inr ⟨err, rfl⟩

/-- **What a pattern between anchors is**: the expression of its body, enclosed, or what comes of a
body that gets out of its group. -/
theorem denotes_anchor_iff : Denotes (anchor cs) w n ↔
    (∃ r depth, Denotes (body cs) r depth ∧ Sealable (body cs) ∧ w = enclosed r ∧ n = depth + 2) ∨
      Escapes (body cs) w n := by
  rw [Denotes, readBody_anchored]
  have hfuel {part : Part} {ds : List Char}
      (hr : readBody ((body cs).length + 1) {} [] {} (body cs) = .ok part)
      (hrest : part.rest = ')' :: ds) : (ds ++ closing).length < (body cs).length + 5 := by
    have hsuffix : part.rest <:+ body cs := (tame_readBody _ {} [] {}).suffix hr
    have hlength := hsuffix.length_le
    rw [hrest, List.length_cons] at hlength
    simp only [List.length_append, closing, List.length_cons, List.length_nil]
    omega
  constructor
  · rintro ⟨names, h⟩
    obtain ⟨part, hbehind, h⟩ := Outcome.bind_eq_ok.1 h
    have hend : part.rest ≠ [] := fun hrest => by
      rw [readBehind_nil hrest] at h
      cases h
    obtain ⟨r, depth, names', rest, rfl, rfl | ⟨ds, rfl⟩, hr⟩ := alone_of_behind hbehind hend
    · have hclosed := readBehind_closing ((body cs).length + 3) r depth names'
      obtain ⟨rfl, rfl, -⟩ := Part.mk.inj (Except.ok.inj (h.symm.trans hclosed))
      exact .inl ⟨r, depth, ⟨names', hr⟩, (sealable_iff ⟨names', hr⟩).2 ⟨names', hbehind⟩, rfl, rfl⟩
    · refine .inr ⟨r, depth, names', ds, names, hr, ?_⟩
      rw [← h]
      exact readBody_fuel (Nat.lt_succ_self _) (hfuel hr rfl) {} names' _
  · rintro (⟨r, depth, hr, hseal, rfl, rfl⟩ | ⟨r, depth, names, ds, names', hr, hbehind⟩)
    · obtain ⟨names, hbehind⟩ := (sealable_iff hr).1 hseal
      rw [hbehind]
      exact ⟨names, readBehind_closing ((body cs).length + 3) r depth names⟩
    · have hgrown := grown_alone (body cs)
      rw [hr] at hgrown
      generalize readBody ((body cs ++ closing).length + 1) {} [] {}
        (body cs ++ closing) = s at hgrown
      cases hgrown with
      | left =>
        rw [readBody_fuel (Nat.lt_succ_self _) (hfuel hr rfl) {} names _] at hbehind
        exact ⟨names', hbehind⟩
      | swallowed _ hrest => cases hrest

/-- What a text gets out of its group to is what its anchored form denotes. -/
theorem Escapes.denotes (h : Escapes (body cs) w n) : Denotes (anchor cs) w n :=
  denotes_anchor_iff.2 (.inr h)

/-- **When a pattern is accepted**: as an expression in its group, or because it gets out of
that. -/
theorem read_anchor_iff : read (anchor cs) = .ok w ↔
    (∃ r depth, Denotes (body cs) r depth ∧ Sealable (body cs) ∧ depth + 2 ≤ depthLimit ∧
      (enclosed r).fits = true ∧ w = enclosed r) ∨
    ∃ n, Escapes (body cs) w n ∧ n ≤ depthLimit ∧ w.fits = true := by
  rw [read_ok_iff]
  simp only [denotes_anchor_iff]
  constructor
  · rintro ⟨_, ⟨r, depth, hr, hseal, rfl, rfl⟩ | hescapes, hdepth, hfits⟩
    · exact .inl ⟨r, depth, hr, hseal, hdepth, hfits, rfl⟩
    · exact .inr ⟨_, hescapes, hdepth, hfits⟩
  · rintro (⟨r, depth, hr, hseal, hdepth, hfits, rfl⟩ | ⟨n, hescapes, hdepth, hfits⟩)
    · exact ⟨depth + 2, .inl ⟨r, depth, hr, hseal, rfl, rfl⟩, hdepth, hfits⟩
    · exact ⟨n, .inr hescapes, hdepth, hfits⟩

/-! ## Matching between anchors -/

/-- Between anchors an expression matches a text only as a whole. -/
theorem occurs_enclosed_iff {text : List Char} :
    Occurs text (enclosed r) ↔ Matches text r 0 text.length := by
  constructor
  · rintro ⟨i, j, hi, h⟩
    cases h with
    | seq hstart h =>
    cases hstart with
    | look _ hstart =>
    cases h with
    | seq hgroup hend =>
    cases hgroup with
    | group hr =>
    cases hend with
    | look hle hend =>
      obtain rfl : i = 0 := by
        cases i with
        | zero => rfl
        | succ i =>
          simp only [Look.holds, charBefore, Option.isNone_iff_eq_none,
            List.getElem?_eq_none_iff] at hstart
          omega
      simp only [Look.holds, Option.isNone_iff_eq_none, List.getElem?_eq_none_iff] at hend
      rwa [Nat.le_antisymm hle hend] at hr
  · intro h
    have hend : Matches text (.look .textEnd) text.length text.length :=
      .look (Nat.le_refl _) (by simp [Look.holds])
    exact ⟨0, text.length, Nat.zero_le _, .seq (.look (Nat.zero_le _) rfl) (.seq (.group h) hend)⟩

namespace PatternSet

variable {t : String} {texts : List String} {p : PatternSet}

theorem read_cons_iff : PatternSet.read (t :: texts) = .ok p ↔
    ∃ w others, Pattern.read (anchor t.toList) = .ok w ∧ PatternSet.read texts = .ok others ∧
      p = ⟨(String.ofList (anchor t.toList), w) :: others.parts⟩ := by
  simp only [PatternSet.read]
  cases Pattern.read (anchor t.toList) with
  | error err => simp [throw, throwThe, MonadExceptOf.throw]
  | ok w =>
    cases PatternSet.read texts with
    | error err => simp [bind, Except.bind]
    | ok others => simp [bind, Except.bind, pure, Except.pure, eq_comm]

theorem read_succeeds_iff :
    (∃ p, PatternSet.read texts = .ok p) ↔ ∀ t ∈ texts,
    ∃ w, Pattern.read (anchor t.toList) = .ok w := by
  induction texts with
  | nil => exact ⟨fun _ _ ht => (nomatch ht), fun _ => ⟨⟨[]⟩, rfl⟩⟩
  | cons t texts ih =>
    rw [List.forall_mem_cons, ← ih]
    constructor
    · rintro ⟨p, h⟩
      obtain ⟨w, others, hw, hothers, -⟩ := read_cons_iff.1 h
      exact ⟨⟨w, hw⟩, others, hothers⟩
    · rintro ⟨⟨w, hw⟩, others, hothers⟩
      exact ⟨_, read_cons_iff.2 ⟨w, others, hw, hothers, rfl⟩⟩

theorem admits_iff (h : PatternSet.read texts = .ok p) (s : String) :
    p.admits s = true ↔ ∀ t ∈ texts, ∃ w, Pattern.read (anchor t.toList) = .ok w ∧
      Occurs s.toList w := by
  induction texts generalizing p with
  | nil =>
    obtain rfl := Except.ok.inj h
    exact ⟨fun _ _ ht => (nomatch ht), fun _ => rfl⟩
  | cons t texts ih =>
    obtain ⟨w, others, hw, hothers, rfl⟩ := read_cons_iff.1 h
    have hfirst : (∃ w, Pattern.read (anchor t.toList) = .ok w ∧ Occurs s.toList w) ↔
        Occurs s.toList w := by
      simp [hw]
    rw [List.forall_mem_cons, hfirst, ← ih hothers, ← occursIn_iff]
    simp [admits]

/-- **Patterns are accepted as they are read alone, and match as a whole.**  Of patterns that open
every group that they close, all are accepted exactly if each can be read without its anchors, does
not end in a comment, and fits with its group into the limits.  What the patterns admit are the
texts that each of them matches from the first to the last character. -/
theorem reads_alone (texts : List String)
    (hopened : ∀ t ∈ texts, Pattern.read (body t.toList) ≠ .error .unopenedGroup) :
    ((∃ p, PatternSet.read texts = .ok p) ↔ ∀ t ∈ texts,
      ∃ r depth, Denotes (body t.toList) r depth ∧
      Sealable (body t.toList) ∧ depth + 2 ≤ depthLimit ∧ (enclosed r).fits = true) ∧
    (∀ p, PatternSet.read texts = .ok p → ∀ s, p.admits s = true ↔
      ∀ t ∈ texts, ∃ r depth, Denotes (body t.toList) r depth ∧
        Matches s.toList r 0 s.toList.length) ∧
    ∀ t ∈ texts, '#' ∉ body t.toList →
      ∀ r depth, Denotes (body t.toList) r depth → Sealable (body t.toList) := by
  have hread {t : String} (ht : t ∈ texts) {w : Regex} : Pattern.read (anchor t.toList) = .ok w ↔
      ∃ r depth, Denotes (body t.toList) r depth ∧ Sealable (body t.toList) ∧
        depth + 2 ≤ depthLimit ∧ (enclosed r).fits = true ∧ w = enclosed r := by
    rw [read_anchor_iff, or_iff_left]
    rintro ⟨n, hescapes, -⟩
    exact hopened t ht hescapes.unopened
  refine ⟨?_, fun p hp s => ?_, fun t _ hcomment r depth hr => sealable_of_no_comment hr hcomment⟩
  · rw [read_succeeds_iff]
    refine forall₂_congr fun t ht => ?_
    constructor
    · rintro ⟨w, hw⟩
      obtain ⟨r, depth, hr, hseal, hdepth, hfits, -⟩ := (hread ht).1 hw
      exact ⟨r, depth, hr, hseal, hdepth, hfits⟩
    · rintro ⟨r, depth, hr, hseal, hdepth, hfits⟩
      exact ⟨enclosed r, (hread ht).2 ⟨r, depth, hr, hseal, hdepth, hfits, rfl⟩⟩
  · rw [admits_iff hp]
    refine forall₂_congr fun t ht => ?_
    obtain ⟨w, hw⟩ := read_succeeds_iff.1 ⟨p, hp⟩ t ht
    obtain ⟨r, depth, hr, -, -, -, rfl⟩ := (hread ht).1 hw
    constructor
    · rintro ⟨w, hw', hoccurs⟩
      obtain rfl := Except.ok.inj (hw.symm.trans hw')
      exact ⟨r, depth, hr, occurs_enclosed_iff.1 hoccurs⟩
    · rintro ⟨r', depth', hr', hmatches⟩
      obtain ⟨rfl, -⟩ := hr.unique hr'
      exact ⟨enclosed r, hw, occurs_enclosed_iff.2 hmatches⟩

/-- Both branches of an alternation are anchored at both ends. -/
theorem reads_alone_branches : (∃ p, PatternSet.read ["^a|b$"] = .ok p) ∧
    ∀ p, PatternSet.read ["^a|b$"] = .ok p → ∀ s, p.admits s = true ↔
      Matches s.toList (.alt (.one (.single 'a')) (.one (.single 'b'))) 0 s.toList.length := by
  have hopened : ∀ t ∈ ["^a|b$"], Pattern.read (body t.toList) ≠ .error .unopenedGroup := by
    decide +kernel
  obtain ⟨hreads, hadmits, hseals⟩ := reads_alone ["^a|b$"] hopened
  have hr : Denotes (body "^a|b$".toList) (.alt (.one (.single 'a')) (.one (.single 'b'))) 1 :=
    ⟨[], rfl⟩
  have hseal := hseals _ (List.mem_singleton_self _) (by decide) _ _ hr
  refine ⟨hreads.2 fun t ht => ?_, fun p hp s => ?_⟩
  · obtain rfl := List.mem_singleton.1 ht
    exact ⟨_, 1, hr, hseal, by decide, by decide +kernel⟩
  · rw [hadmits p hp s, List.forall_mem_singleton]
    constructor
    · rintro ⟨r, depth, hr', hmatches⟩
      obtain ⟨rfl, -⟩ := hr.unique hr'
      exact hmatches
    · exact fun hmatches => ⟨_, 1, hr, hmatches⟩

/-- A pattern that closes the group it is put into gets out of its anchors: alone it is no
expression, but between anchors it is, and it matches texts of which it describes only the start. -/
theorem not_alone_unopened : Pattern.read (body "a)|(b".toList) = .error .unopenedGroup ∧
    ∃ p, PatternSet.read ["a)|(b"] = .ok p ∧ p.admits "ax" = true ∧ p.admits "xb" = true := by
  have hadmits : (PatternSet.read ["a)|(b"]).toOption.any
      (fun p => p.admits "ax" && p.admits "xb") = true := by
    decide +kernel
  refine ⟨by decide +kernel, ?_⟩
  cases h : PatternSet.read ["a)|(b"] with
  | error err =>
    rw [h] at hadmits
    cases hadmits
  | ok p =>
    rw [h] at hadmits
    exact ⟨p, rfl, (Bool.and_eq_true_iff.1 hadmits)⟩

/-- **Which patterns are accepted, and what they match**, if they may also close groups that they
do not open.  A pattern that gets out of its group is accepted if what comes of it fits into the
limits, and admits the texts in which that occurs. -/
theorem reads_or_escapes (texts : List String) :
    ((∃ p, PatternSet.read texts = .ok p) ↔ ∀ t ∈ texts,
      (∃ r depth, Denotes (body t.toList) r depth ∧ Sealable (body t.toList) ∧
        depth + 2 ≤ depthLimit ∧ (enclosed r).fits = true) ∨
      ∃ w n, Escapes (body t.toList) w n ∧ n ≤ depthLimit ∧ w.fits = true) ∧
    ∀ p, PatternSet.read texts = .ok p → ∀ s, p.admits s = true ↔ ∀ t ∈ texts,
      (∃ r depth, Denotes (body t.toList) r depth ∧ Matches s.toList r 0 s.toList.length) ∨
      ∃ w n, Escapes (body t.toList) w n ∧ Occurs s.toList w := by
  refine ⟨?_, fun p hp s => ?_⟩
  · rw [read_succeeds_iff]
    refine forall₂_congr fun t _ => ?_
    simp only [read_anchor_iff]
    constructor
    · rintro ⟨w, ⟨r, depth, hr, hseal, hdepth, hfits, -⟩ | ⟨n, hescapes⟩⟩
      · exact .inl ⟨r, depth, hr, hseal, hdepth, hfits⟩
      · exact .inr ⟨w, n, hescapes⟩
    · rintro (⟨r, depth, hr, hseal, hdepth, hfits⟩ | ⟨w, n, hescapes⟩)
      · exact ⟨_, .inl ⟨r, depth, hr, hseal, hdepth, hfits, rfl⟩⟩
      · exact ⟨w, .inr ⟨n, hescapes⟩⟩
  · rw [admits_iff hp]
    refine forall₂_congr fun t ht => ?_
    obtain ⟨w, hw⟩ := read_succeeds_iff.1 ⟨p, hp⟩ t ht
    obtain ⟨n, hdenotes, -⟩ := read_ok_iff.1 hw
    constructor
    · rintro ⟨w', hw', hoccurs⟩
      obtain rfl := Except.ok.inj (hw.symm.trans hw')
      obtain ⟨r, depth, hr, -, rfl, -⟩ | hescapes := denotes_anchor_iff.1 hdenotes
      · exact .inl ⟨r, depth, hr, occurs_enclosed_iff.1 hoccurs⟩
      · exact .inr ⟨w, n, hescapes, hoccurs⟩
    · rintro (⟨r, depth, hr, hmatches⟩ | ⟨w', n', hescapes, hoccurs⟩)
      · obtain ⟨r', depth', hr', -, rfl, -⟩ | hescapes := denotes_anchor_iff.1 hdenotes
        · obtain ⟨rfl, -⟩ := hr.unique hr'
          exact ⟨_, hw, occurs_enclosed_iff.2 hmatches⟩
        · exact absurd hescapes.unopened hr.opened
      · obtain ⟨rfl, -⟩ := hescapes.denotes.unique hdenotes
        exact ⟨_, hw, hoccurs⟩

end PatternSet

end DataTree.Pattern
