import DataTree.Proofs.Pattern.Behind

/-!
# DataTree.Proofs.Pattern.Escapes

Escapes read the same with the end of a group behind them.

No digit, no name and no query goes on into the closing: a parenthesis is neither a digit in
hexadecimal nor a letter, and a closing brace, which would end what is in braces, is not in it.
-/

namespace DataTree.Pattern

open Remainder

variable {α : Type} (flags : Flags) {c : Char}

/-- Blanks behind a result are skipped. -/
theorem tame_skip_pair (a : α) :
    Tame fun cs => (.ok (a, flags.skip cs) : Except Fault (α × List Char)) :=
  (tame_skip flags).bind (Tame.pair a)

/-- Digits in hexadecimal end in front of the closing. -/
theorem tame_takeHex (n : Nat) : Tame (takeHex flags n) := by
  induction n with
  | zero => exact Tame.pair []
  | succ n ih =>
    refine Tame.of_led_error (fun y => by simp [takeHex])
      (fun y => by simp [takeHex, closing, hexDigit?]) fun c => ?_
    by_cases hc : (hexDigit? c).isNone = true
    · simp only [takeHex, if_pos hc, throw_eq, error_bind]
      exact Tame.error _
    · simp only [takeHex, if_neg hc]
      exact ((ih.skip flags).tail).bind (Tame.of_pair fun digits => Tame.pair (c :: digits))

/-- Braces that the text does not close are not closed behind it. -/
theorem tame_takeBraced : Tame (takeBraced flags) := by
  have hbraced (cs : List Char) {y : List Char × List Char} : takeBraced flags cs = .ok y ↔
      ∃ c, takeSpaced flags.spaced (· != '\x7d') false cs = (y.1, c :: y.2) := by
    rw [takeBraced, Flags.take]
    rcases takeSpaced flags.spaced (· != '\x7d') false cs with ⟨body, _ | ⟨c, rest⟩⟩ <;>
      simp [Prod.ext_iff]
  refine ⟨fun {cs y} h => ?_, fun cs => ?_⟩
  · obtain ⟨c, hy⟩ := (hbraced cs).1 h
    have htake : (takeSpaced flags.spaced (· != '\x7d') false cs).2 <:+ cs := takeSpaced_suffix cs
    rw [hy] at htake
    exact (List.suffix_cons c y.2).trans htake
  · cases h : takeBraced flags cs with
    | ok y =>
      obtain ⟨c, hy⟩ := (hbraced cs).1 h
      have hmore := takeSpaced_append (by rw [hy]; exact List.cons_ne_nil c y.2) closing
      rw [hy] at hmore
      rw [(hbraced (more cs) (y := more y)).2 ⟨c, hmore⟩]
      exact .left y
    | error err =>
      have hend : (takeSpaced flags.spaced (· != '\x7d') false cs).2 = [] := by
        by_contra hne
        obtain ⟨c, rest, hrest⟩ := List.exists_cons_of_ne_nil hne
        rw [(hbraced cs (y := (_, rest))).2 ⟨c, by rw [← hrest]⟩] at h
        cases h
      refine .refused err _ fun y hy hclosing => ?_
      -- the run has gone on behind the text, and one more character has been taken there
      obtain ⟨c, hy⟩ := (hbraced (more cs)).1 hy
      have hbeyond := takeSpaced_beyond hend closing
      rw [show cs ++ closing = more cs from rfl, hy] at hbeyond
      exact absurd (hclosing.length_le.trans_lt (Nat.lt_succ_self _))
        (Nat.not_lt.2 hbeyond.length_le)

/-- A code point in hexadecimal. -/
theorem tame_readHex (width : Nat) : Tame (readHex flags (width + 1)) := by
  refine Tame.of_skip_error flags (fun cs => by simp only [readHex, Flags.skip_skip])
    (fun y => by simp [readHex])
    (fun y => by simp [readHex, closing, takeHex, hexDigit?]) fun c h => ?_
  by_cases hc : c = '{'
  · subst hc
    simp only [readHex, h]
    refine (tame_takeBraced flags).tail.bind (Tame.of_pair fun digits => ?_)
    by_cases hd : digits.isEmpty = true
    · simp only [hd, if_true, throw_eq, error_bind]
      exact Tame.error _
    · simp only [hd]
      cases (hexValue? digits).bind charOf? with
      | none => exact Tame.error _
      | some c => exact tame_skip_pair flags _
  · simp only [readHex, h, List.cons.injEq, hc, false_and, imp_self, implies_true, throw_eq,
      pure_eq, error_bind]
    refine (tame_takeHex flags (width + 1)).led.bind (Tame.of_pair fun digits => ?_)
    dsimp only
    cases (hexValue? digits).bind charOf? with
    | none => exact Tame.error _
    | some c =>
      dsimp only
      split
      · exact Tame.error _
      · exact Tame.pair _

/-- The set that the query of a Unicode property stands for. -/
def admitQuery (negated : Bool) (query rest : List Char) :
    Except Fault (Primitive × List Char) := do
  if !flags.unicode then throw .notAscii
  match Text.setOfQuery? query with
  | some (inverted, s) =>
    let s := flags.fold s
    return (.set (if negated != inverted then s.compl else s), rest)
  | none => throw .unknownProperty

theorem tame_admitQuery (negated : Bool) (query : List Char) :
    Tame (admitQuery flags negated query) := by
  unfold admitQuery
  by_cases hu : flags.unicode = true
  · simp only [hu, Bool.not_true]
    rcases Text.setOfQuery? query with _ | ⟨inverted, s⟩
    · exact Tame.error _
    · exact Tame.pair _
  · simp only [hu]
    exact Tame.error _

/-- The query of a Unicode property: a letter, or what stands in braces. -/
theorem tame_readProperty (negated : Bool) : Tame (readProperty flags negated) := by
  have hletter {c : Char} (hc : c ≠ '\x7b') (hb : c ≠ '\\')
      (h : ∀ cs, flags.skip (c :: cs) = c :: cs) :
      Tame fun cs => readProperty flags negated (c :: cs) := by
    refine ((tame_skip flags).bind (tame_admitQuery flags negated [c])).congr fun cs => ?_
    simp only [readProperty, h]
    rfl
  refine Tame.of_skip_error flags (fun cs => by simp only [readProperty, Flags.skip_skip])
    (fun y => by simp [readProperty])
    (fun y hy => (hletter (by decide) (by decide) (Flags.skip_paren flags)).suffix hy) fun c h => ?_
  by_cases hc : c = '\x7b'
  · subst hc
    refine ((tame_takeBraced flags).bind_pair
      (tame_admitQuery flags negated)).tail.congr fun p => ?_
    simp only [readProperty, h]
    rfl
  · by_cases hb : c = '\\'
    · subst hb
      simp only [readProperty, h]
      exact Tame.error _
    · exact (hletter hc hb h).tail

/-! ## Conditions on words -/

/-- The condition with a name, if a closing brace stands behind the name. -/
def edgeNamed : List Char × List Char → Except Fault (Primitive × List Char)
  | (name, '\x7d' :: rest) =>
    match String.ofList name with
    | "start" => .ok (.look (.word .start (!flags.unicode)), rest)
    | "end" => .ok (.look (.word .stop (!flags.unicode)), rest)
    | "start-half" => .ok (.look (.word .startHalf (!flags.unicode)), rest)
    | "end-half" => .ok (.look (.word .stopHalf (!flags.unicode)), rest)
    | _ => .error .badWordEdge
  | _ => .error .badWordEdge

theorem tame_edgeNamed : Tame (edgeNamed flags) := by
  refine Tame.of_pair fun name =>
    Tame.of_led_error (fun y => by simp [edgeNamed]) (fun y => ?_) fun c => ?_
  · simp [edgeNamed, closing]
  · by_cases hc : c = '\x7d'
    · subst hc
      simp only [edgeNamed]
      split
      all_goals first
        | exact (Tame.pair _).tail
        | exact Tame.error _
    · simp [edgeNamed, hc, Tame.error]

/-- The name of a condition and the closing brace. -/
def readEdgeName (cs : List Char) : Except Fault (Primitive × List Char) :=
  edgeNamed flags (flags.take (fun c => c.isAlpha || c == '-') cs)

theorem tame_readEdgeName : Tame (readEdgeName flags) :=
  (tame_take flags rfl).bind (tame_edgeNamed flags)

variable {cs ds : List Char}

theorem readWordEdge_plain (h : ∀ inner, cs ≠ '\x7b' :: inner) :
    readWordEdge flags cs = .ok (.look (.word .boundary (!flags.unicode)), cs) := by
  unfold readWordEdge
  split
  · next inner => exact absurd rfl (h inner)
  · rfl

theorem readWordEdge_brace_nil (h : flags.skip cs = []) :
    readWordEdge flags ('\x7b' :: cs) = .error .badWordEdge := by
  simp [readWordEdge, h]

theorem readWordEdge_brace_name (hc : (c.isAlpha || c == '-') = true)
    (h : flags.skip cs = c :: ds) :
    readWordEdge flags ('\x7b' :: cs) = readEdgeName flags (c :: ds) := by
  simp only [readWordEdge, h, hc, readEdgeName, edgeNamed]
  rfl

theorem readWordEdge_brace_other (hc : ¬ (c.isAlpha || c == '-') = true)
    (h : flags.skip cs = c :: ds) :
    readWordEdge flags ('\x7b' :: cs) =
      .ok (.look (.word .boundary (!flags.unicode)), '\x7b' :: cs) := by
  simp [readWordEdge, h, hc]

/-- A condition, and behind it a brace that nothing but the closing stands in. -/
def Stray (y : Primitive × List Char) : Prop :=
  (∃ l, y.1 = .look l) ∧ ∃ ds, y.2 = '\x7b' :: ds ∧ flags.skip ds = closing

/-- If a brace stands alone behind the letter, the closing shows that no name follows. -/
theorem tame_readWordEdge_brace :
    Tame (fun p : Led '\x7b' => readWordEdge flags ('\x7b' :: p.tail)) (Stray flags) where
  suffix {p y} h := by
    cases hskip : flags.skip p.tail with
    | nil =>
      rw [readWordEdge_brace_nil flags hskip] at h
      cases h
    | cons c ds =>
      by_cases hc : (c.isAlpha || c == '-') = true
      · rw [readWordEdge_brace_name flags hc hskip] at h
        have hinner : c :: ds <:+ p.tail := hskip ▸ (tame_skip flags).suffix rfl
        exact ((tame_readEdgeName flags).suffix h).trans (hinner.trans (List.suffix_cons _ _))
      · rw [readWordEdge_brace_other flags hc hskip] at h
        obtain rfl := Except.ok.inj h
        exact List.suffix_rfl
  grown p := by
    show Grown _ _ _ (readWordEdge flags ('\x7b' :: (p.tail ++ closing)))
    have hgrown := (tame_skip flags).grown p.tail
    generalize hs : flags.skip p.tail = s at hgrown
    generalize hs' : flags.skip (more p.tail) = s' at hgrown
    rw [show more p.tail = p.tail ++ closing from rfl] at hs'
    cases hgrown with
    | swallowed _ hrest _ =>
      obtain rfl : s = [] := hrest
      rw [readWordEdge_brace_nil flags hs, readWordEdge_brace_nil flags hs']
      exact .error _ _
    | left =>
      cases s with
      | nil =>
        rw [readWordEdge_brace_nil flags hs, readWordEdge_brace_other flags (by decide) hs']
        refine .refused _ _ fun y hy _ => ?_
        obtain rfl := Except.ok.inj hy
        exact ⟨⟨_, rfl⟩, _, rfl, hs'⟩
      | cons c ds =>
        by_cases hc : (c.isAlpha || c == '-') = true
        · rw [readWordEdge_brace_name flags hc hs, readWordEdge_brace_name flags hc hs']
          have hinner : c :: ds <:+ p.tail := hs ▸ (tame_skip flags).suffix rfl
          refine (((tame_readEdgeName flags).grown (c :: ds)).weaken fun _ => False.elim).mono ?_
          exact (hinner.trans (List.suffix_cons _ _)).subset
        · rw [readWordEdge_brace_other flags hc hs, readWordEdge_brace_other flags hc hs']
          exact .left (_, '\x7b' :: p.tail)

theorem tame_readWordEdge : Tame (readWordEdge flags) (Stray flags) :=
  Tame.of_char '\x7b' (by decide) (fun _ h => readWordEdge_plain flags h)
    (tame_readWordEdge_brace flags) (Tame.pair _)

/-- What stands behind a backslash. -/
theorem tame_readEscape : Tame (readEscape flags) (Stray flags) := by
  have hletter : ∀ c, Tame (fun cs => readEscape flags (c :: cs)) (Stray flags) := fun c => by
    simp only [readEscape]
    by_cases hd : c.isDigit = true
    · simp only [hd, if_true]
      exact Tame.error _
    simp only [hd]
    cases letterSet? flags c with
    | some s => exact Tame.pair _
    | none =>
      dsimp only
      cases (if c.isUpper then letterSet? flags c.toLower else none) with
      | some s =>
        dsimp only
        cases flags.checkSet s.compl with
        | error err => exact Tame.error err
        | ok s => exact Tame.pair _
      | none =>
        dsimp only
        by_cases he : isEscapable c = true
        · simp only [he, if_true]
          exact Tame.pair _
        simp only [he]
        by_cases hc : c ∈ ['x', 'u', 'U', 'p', 'P', 'a', 'f', 't', 'n', 'r', 'v', 'A', 'z', 'b',
          'B', '<', '>']
        · simp only [List.mem_cons, List.not_mem_nil, or_false] at hc
          rcases hc with rfl | rfl | rfl | rfl | rfl | rfl | rfl | rfl | rfl | rfl | rfl | rfl |
            rfl | rfl | rfl | rfl | rfl
          all_goals first
            | exact (tame_readHex flags _).mono fun _ => False.elim
            | exact (tame_readProperty flags _).mono fun _ => False.elim
            | exact tame_readWordEdge flags
            | exact Tame.pair _
        · simp only [List.mem_cons, List.not_mem_nil, or_false, not_or] at hc
          simp only [hc, imp_self]
          exact Tame.error _
  exact Tame.of_led_error (fun y => by simp [readEscape]) (fun y => (hletter ')').suffix) fun c =>
    (hletter c).tail

end DataTree.Pattern
