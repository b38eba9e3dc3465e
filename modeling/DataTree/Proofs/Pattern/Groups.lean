import DataTree.Pattern.Reader
import DataTree.Proofs.Pattern.Classes

/-!
# DataTree.Proofs.Pattern.Groups

Repetition counts and the openings of groups read the same with the end of a group behind them.

Flags alone are the exception: a parenthesis behind them makes a directive of them
(`tame_readFlags`).  The directive has then taken the parenthesis, so that the group is not closed.
-/

namespace DataTree.Pattern

open Remainder

variable (flags : Flags) {c : Char} {cs ds : List Char}

/-! ## Repetition counts -/

/-- Blanks around a count. -/
theorem tame_dropBlank : Tame fun cs => .ok (List.dropWhile Text.isBlank cs) where
  suffix h := by
    obtain rfl := Except.ok.inj h
    exact List.dropWhile_suffix _
  grown cs := by
    show Grown _ cs (.ok (cs.dropWhile Text.isBlank)) (.ok ((cs ++ closing).dropWhile Text.isBlank))
    rw [dropBlank_closing]
    exact .left _

/-- The count that digits stand for, and the text behind the blanks. -/
def admitCount (digits rest : List Char) : Except Fault (Nat × List Char) :=
  match Numeral.readNat? digits with
  | some n => if n < UInt32.size then .ok (n, rest.dropWhile Text.isBlank) else .error .badCount
  | none => .error .badCount

/-- The number that digits stand for. -/
theorem tame_admitCount (digits : List Char) : Tame (admitCount digits) := by
  unfold admitCount
  cases Numeral.readNat? digits with
  | none => exact Tame.error _
  | some n =>
    by_cases hn : n < UInt32.size
    · simp only [hn, if_true]
      exact tame_dropBlank.bind (Tame.pair n)
    · simp only [hn, if_false]
      exact Tame.error _

/-- A count. -/
theorem tame_readCount : Tame (readCount flags) :=
  (tame_dropBlank.bind ((tame_take flags (p := Char.isDigit) rfl).bind_pair
    tame_admitCount)).congr fun _ => rfl

/-- There is no count in the closing. -/
theorem readCount_closing : readCount flags closing = .error .badCount := by
  simp [readCount, closing, Flags.take, takeSpaced, Text.isBlank, Numeral.readNat?]

/-- The brace behind the greater bound of a repetition. -/
def readBrace (min max : Nat) : List Char → Except Fault (Nat × Option Nat × List Char)
  | '\x7d' :: cs => if min ≤ max then .ok (min, some max, flags.skip cs) else .error .badCount
  | _ => .error .badCount

variable {flags} in
/-- Behind the counts there has to be a closing brace. -/
theorem readBrace_other {min max : Nat} (h : ∀ ds, cs ≠ '\x7d' :: ds) :
    readBrace flags min max cs = .error .badCount := by
  unfold readBrace
  split
  · exact absurd rfl (h _)
  · rfl

/-- The brace behind the counts. -/
theorem tame_readBrace (min max : Nat) : Tame (readBrace flags min max) := by
  refine Tame.of_char '\x7d' (by decide) (fun cs h => readBrace_other h) ?_ (Tame.error .badCount)
  simp only [readBrace]
  split
  · exact ((tame_skip_pair flags (some max)).bind (Tame.pair min)).tail
  · exact Tame.error _

/-- What stands behind the comma between the bounds of a repetition. -/
def readUpper (min : Nat) : List Char → Except Fault (Nat × Option Nat × List Char)
  | '\x7d' :: cs => .ok (min, none, flags.skip cs)
  | cs => readCount flags cs >>= fun y => readBrace flags min y.1 y.2

variable {flags} in
theorem readUpper_other {min : Nat} (h : ∀ ds, cs ≠ '\x7d' :: ds) :
    readUpper flags min cs = readCount flags cs >>= fun y => readBrace flags min y.1 y.2 := by
  unfold readUpper
  split
  · exact absurd rfl (h _)
  · rfl

/-- The upper bound of a repetition, which may be left out. -/
theorem tame_readUpper (min : Nat) : Tame (readUpper flags min) :=
  Tame.of_char '\x7d' (by decide) (fun _ h => readUpper_other h)
    ((tame_skip_pair flags none).bind (Tame.pair min)).tail
    ((tame_readCount flags).bind_pair fun max => tame_readBrace flags min max)

/-- What stands behind the lower bound of a repetition. -/
def readBounds (min : Nat) : List Char → Except Fault (Nat × Option Nat × List Char)
  | ',' :: cs => readUpper flags min (flags.skip cs)
  | cs => readBrace flags min min cs

variable {flags} in
theorem readBounds_other {min : Nat} (h : ∀ ds, cs ≠ ',' :: ds) :
    readBounds flags min cs = readBrace flags min min cs := by
  unfold readBounds
  split
  · exact absurd rfl (h _)
  · rfl

/-- The upper bound, or a single count for both. -/
theorem tame_readBounds (min : Nat) : Tame (readBounds flags min) :=
  Tame.of_char ',' (by decide) (fun _ h => readBounds_other h)
    ((tame_readUpper flags min).skip flags).tail (tame_readBrace flags min min)

/-- The counts of a repetition, bound by bound. -/
theorem readCounts_eq (cs : List Char) :
    readCounts flags cs = readCount flags (flags.skip cs) >>= fun y =>
      readBounds flags y.1 y.2 := by
  unfold readCounts
  cases readCount flags (flags.skip cs) with
  | error err => rfl
  | ok y =>
    obtain ⟨min, rest⟩ := y
    simp only [ok_bind]
    split
    · simp [readBounds, readBrace]
    · next rest =>
      simp only [readBounds]
      generalize flags.skip rest = rest
      split
      · rfl
      · next h =>
        rw [readUpper_other h]
        cases readCount flags rest with
        | error err => rfl
        | ok y =>
          simp only [ok_bind]
          split
          · next hy => simp [hy, readBrace]
          · next h => rw [readBrace_other h, throw_eq]
    · next hbrace hcomma => rw [readBounds_other hcomma, readBrace_other hbrace, throw_eq]

/-- The counts of a repetition read the same with the closing behind them. -/
theorem tame_readCounts : Tame (readCounts flags) :=
  (((tame_readCount flags).skip flags).bind_pair fun min => tame_readBounds flags min).congr
    (readCounts_eq flags)

/-- The question mark behind a repetition. -/
theorem tame_dropLazy : Tame fun cs => .ok (dropLazy cs) := by
  refine Tame.of_char '?' (by decide) (fun cs h => ?_) Tame.same.tail Tame.same
  unfold dropLazy
  split
  · exact absurd rfl (h _)
  · rfl

/-! ## The opening of a group -/

namespace Remainder

instance : Remainder Opening where
  rest
    | .directive _ rest => rest
    | .group _ _ _ rest => rest
  more
    | .directive flags rest => .directive flags (rest ++ closing)
    | .group captures flags names rest => .group captures flags names (rest ++ closing)
  rest_more
    | .directive .. => rfl
    | .group .. => rfl

end Remainder

/-- Flags leave an end of the text. -/
theorem readFlags_suffix {seen : List Char} {y : Flags × List Char × List Char}
    (h : readFlags flags seen cs = .ok y) : y.2.2 <:+ cs := by
  fun_induction readFlags flags seen cs with
  | case1 | case2 | case4 | case7 => cases h
  | case3 =>
    obtain rfl := Except.ok.inj h
    exact List.suffix_rfl
  | case5 _ _ _ _ _ ih => exact (ih h).trans (List.suffix_cons _ _)
  | case6 _ _ _ _ _ _ _ _ _ ih => exact (ih h).trans (List.suffix_cons _ _)

/-- What ends flags is still there. -/
theorem readFlags_ne_nil {seen : List Char} {y : Flags × List Char × List Char}
    (h : readFlags flags seen cs = .ok y) : y.2.2 ≠ [] := by
  fun_induction readFlags flags seen cs with
  | case1 | case2 | case4 | case7 => cases h
  | case3 =>
    obtain rfl := Except.ok.inj h
    exact List.cons_ne_nil _ _
  | case5 _ _ _ _ _ ih => exact ih h
  | case6 _ _ _ _ _ _ _ _ _ ih => exact ih h

/-- Flags are not yet at an end; the parenthesis behind them is the end of a directive. -/
theorem tame_readFlags (seen : List Char) :
    Tame (readFlags flags seen) fun y => y.2.2 = closing where
  suffix := readFlags_suffix flags
  grown cs := by
    show Grown _ cs (readFlags flags seen cs) (readFlags flags seen (cs ++ closing))
    induction cs generalizing flags seen with
    | nil =>
      refine .refused _ _ fun y hy _ => ?_
      by_cases hseen : seen.head? = some '-'
      · simp [closing, readFlags, hseen] at hy
      · have hend : readFlags flags seen closing = .ok (flags, seen, closing) := by
          simp [closing, readFlags, hseen]
        rw [List.nil_append, hend] at hy
        obtain rfl := Except.ok.inj hy
        rfl
    | cons c cs ih =>
      simp only [List.cons_append, readFlags]
      split
      · split
        · exact .error _ _
        · exact .left (flags, seen, c :: cs)
      split
      · exact .error _ _
      split
      · exact (ih _ _).mono (List.subset_cons_self c cs)
      split
      · exact (ih _ _).mono (List.subset_cons_self c cs)
      · exact .error _ _

/-- The name of a group, as it stands in front of an angle bracket. -/
def admitName (names : List String) : List Char → List Char → Except Fault (List String × List Char)
  | first :: others, '>' :: rest =>
    if !isNameChar true first || !others.all (isNameChar false) then .error .badGroupName
    else if names.contains (String.ofList (first :: others)) then .error .repeatedGroupName
    else .ok (String.ofList (first :: others) :: names, rest)
  | _, _ => .error .badGroupName

theorem admitName_other {names : List String} {taken : List Char} (h : ∀ ds, cs ≠ '>' :: ds) :
    admitName names taken cs = .error .badGroupName := by
  unfold admitName
  split
  · exact absurd rfl (h _)
  · rfl

/-- The bracket behind the name of a group. -/
theorem tame_admitName (names : List String) (taken : List Char) :
    Tame (admitName names taken) := by
  cases taken with
  | nil => exact (Tame.error .badGroupName).congr fun cs => by simp [admitName]
  | cons first others =>
    refine Tame.of_char '>' (by decide) (fun _ h => admitName_other h) ?_ (Tame.error .badGroupName)
    simp only [admitName]
    split
    · exact Tame.error _
    split
    · exact Tame.error _
    · exact (Tame.pair _).tail

/-- A name is everything up to its bracket. -/
theorem readName_eq (names : List String) (cs : List Char) :
    readName names cs = admitName names (cs.takeWhile (· != '>')) (cs.dropWhile (· != '>')) := rfl

/-- The name of a group. -/
theorem tame_readName (names : List String) : Tame (readName names) := by
  refine ⟨fun {cs y} h => ?_, fun cs => ?_⟩
  · exact ((tame_admitName names _).suffix h).trans (List.dropWhile_suffix _)
  · rw [readName_eq, readName_eq, show more cs = cs ++ closing from rfl]
    cases h : cs.dropWhile (· != '>') with
    | nil =>
      rw [dropWhile_closing (by decide) h, admitName_other (by simp), admitName_other (by simp)]
      exact .error _ _
    | cons c ds =>
      rw [(span_closing h).1, (span_closing h).2]
      refine ((tame_admitName names _).grown (c :: ds)).mono ?_
      rw [← h]
      exact (List.dropWhile_suffix _).subset

/-- What the flags of a group and the character behind them start. -/
def admitFlags (names : List String) (inner : Flags) (seen : List Char) :
    List Char → Except Fault Opening
  | [] => .error .badFlags
  | c :: rest =>
    if c = ')' then if seen.isEmpty then .error .nothingToRepeat else .ok (.directive inner rest)
    else .ok (.group false inner names rest)

/-- What flags are for, by the character behind them. -/
theorem tame_admitFlags_cons (names : List String) (inner : Flags) (seen : List Char) (c : Char) :
    Tame fun cs => admitFlags names inner seen (c :: cs) := by
  simp only [admitFlags]
  split
  · split
    · exact Tame.error _
    · exact Tame.map (fun _ => rfl) fun _ => rfl
  · exact Tame.map (fun _ => rfl) fun _ => rfl

/-- Flags for the rest of a group, or for a group of their own. -/
theorem tame_admitFlags (names : List String) (inner : Flags) (seen : List Char) :
    Tame (admitFlags names inner seen) :=
  Tame.of_led_error (fun y => by simp [admitFlags])
    (fun _ => (tame_admitFlags_cons names inner seen ')').suffix)
    fun c => (tame_admitFlags_cons names inner seen c).tail

/-- A group with flags, or a directive. -/
def readFlagged (names : List String) (cs : List Char) : Except Fault Opening :=
  readFlags flags [] cs >>= fun y => admitFlags names y.1 y.2.1 y.2.2

/-- A group with flags. -/
theorem tame_readFlagged (names : List String) : Tame (readFlagged flags names) := by
  refine Tame.bind_of_stuck (tame_readFlags flags [])
    (Tame.of_pair fun inner => Tame.of_pair fun seen => tame_admitFlags names inner seen) ?_
  rintro ⟨inner, seen, _⟩ z rfl hz hclosing
  -- the directive has taken the parenthesis
  exact absurd (hclosing.trans ((tame_admitFlags_cons names inner seen ')').suffix hz)) (by decide)

/-- A group with a name; there is none where the text looks back. -/
def readNamed (names : List String) : List Char → Except Fault Opening
  | '=' :: _ | '!' :: _ => .error .lookAround
  | cs => readName names cs >>= fun y => .ok (.group true flags y.1 y.2)

variable {flags} in
theorem readNamed_other {names : List String} (h : ∀ ds, cs ≠ '=' :: ds)
    (h' : ∀ ds, cs ≠ '!' :: ds) :
    readNamed flags names cs = readName names cs >>= fun y => .ok (.group true flags y.1 y.2) := by
  unfold readNamed
  split
  · exact absurd rfl (h _)
  · exact absurd rfl (h' _)
  · rfl

/-- A group with a name. -/
theorem tame_readNamed (names : List String) : Tame (readNamed flags names) := by
  have hname : Tame fun cs => readName names cs >>= fun y =>
      .ok (Opening.group true flags y.1 y.2) :=
    (tame_readName names).bind (Tame.map (fun _ => rfl) fun _ => rfl)
  refine Tame.of_led (hname.grown []) (fun y hy => List.suffix_nil.1 (hname.suffix hy)) fun c => ?_
  by_cases hc : c = '='
  · subst hc
    exact Tame.error _
  by_cases hc' : c = '!'
  · subst hc'
    exact Tame.error _
  · exact hname.led.congr fun p => readNamed_other (by simp [hc]) (by simp [hc'])

/-- What stands behind the question mark at the start of a group. -/
def readExtension (names : List String) : List Char → Except Fault Opening
  | [] => .error .unclosedGroup
  | '=' :: _ | '!' :: _ => .error .lookAround
  | '<' :: cs => readNamed flags names cs
  | 'P' :: '<' :: cs => readName names cs >>= fun y => .ok (.group true flags y.1 y.2)
  | cs => readFlagged flags names cs

variable {flags} in
theorem readExtension_other {names : List String} (hnil : cs ≠ []) (hequal : ∀ ds, cs ≠ '=' :: ds)
    (hmark : ∀ ds, cs ≠ '!' :: ds) (hname : ∀ ds, cs ≠ '<' :: ds)
    (hp : ∀ ds, cs ≠ 'P' :: '<' :: ds) :
    readExtension flags names cs = readFlagged flags names cs := by
  unfold readExtension
  split
  · exact absurd rfl hnil
  · exact absurd rfl (hequal _)
  · exact absurd rfl (hmark _)
  · exact absurd rfl (hname _)
  · exact absurd rfl (hp _)
  · rfl

/-- What a question mark behind the parenthesis starts. -/
theorem tame_readExtension (names : List String) : Tame (readExtension flags names) := by
  have hname : Tame fun cs => readName names cs >>= fun y =>
      .ok (Opening.group true flags y.1 y.2) :=
    (tame_readName names).bind (Tame.map (fun _ => rfl) fun _ => rfl)
  have hp : Tame fun cs => readExtension flags names ('P' :: cs) := by
    refine Tame.of_char '<' (by decide) (fun cs h => ?_) hname.tail (Tame.error .badFlags)
    rw [readExtension_other (by simp) (by simp) (by simp) (by simp) (by simpa using h)]
    simp [readFlagged, readFlags, Flags.set?]
  have hclosing : readExtension flags names closing = .error .nothingToRepeat := by
    simp [closing, readExtension, readFlagged, readFlags, admitFlags]
  refine Tame.of_led_error (fun y => by simp [readExtension])
    (fun y => by simp [hclosing]) fun c => ?_
  by_cases hc : c ∈ ['=', '!', '<', 'P']
  · simp only [List.mem_cons, List.not_mem_nil, or_false] at hc
    rcases hc with rfl | rfl | rfl | rfl
    · exact Tame.error _
    · exact Tame.error _
    · exact (tame_readNamed flags names).tail
    · exact hp.tail
  · simp only [List.mem_cons, List.not_mem_nil, or_false, not_or] at hc
    exact (tame_readFlagged flags names).led.congr fun p =>
      readExtension_other (by simp) (by simp [hc]) (by simp [hc]) (by simp [hc]) (by simp [hc])

/-- What stands at the start of a group. -/
def readGroupStart (names : List String) : List Char → Except Fault Opening
  | '?' :: cs => readExtension flags names cs
  | cs => .ok (.group true flags names cs)

variable {flags} in
/-- Without a question mark a group captures. -/
theorem readGroupStart_other {names : List String} (h : ∀ ds, cs ≠ '?' :: ds) :
    readGroupStart flags names cs = .ok (.group true flags names cs) := by
  unfold readGroupStart
  split
  · exact absurd rfl (h _)
  · rfl

/-- Blanks may stand behind the parenthesis. -/
theorem readOpening_eq (names : List String) (cs : List Char) :
    readOpening flags names cs = readGroupStart flags names (flags.skip cs) := by
  unfold readOpening
  generalize flags.skip cs = cs
  split
  iterate 4 simp [readGroupStart, readExtension, readNamed]
  · simp [readGroupStart, readExtension]
  · next cs hequal hmark =>
    simp only [readGroupStart, readExtension, readNamed_other hequal hmark]
    cases readName names cs <;> rfl
  · simp [readGroupStart, readExtension]
  · next cs hequal hmark _ _ hp hname hnil =>
    simp only [readGroupStart, readExtension_other hnil hequal hmark hname hp, readFlagged]
    cases h : readFlags flags [] cs with
    | error err => rfl
    | ok y =>
      obtain ⟨inner, seen, rest⟩ := y
      obtain ⟨c, rest, rfl⟩ := List.exists_cons_of_ne_nil (readFlags_ne_nil flags h)
      by_cases hc : c = ')'
      · subst hc
        simp only [ok_bind, admitFlags, if_true]
        rfl
      · simp [admitFlags, hc]
  · next h => rw [readGroupStart_other h]; rfl

/-- **The opening of a group reads the same** with the closing behind it. -/
theorem tame_readOpening (names : List String) : Tame (readOpening flags names) := by
  have hstart : Tame (readGroupStart flags names) :=
    Tame.of_char '?' (by decide) (fun _ h => readGroupStart_other h)
      (tame_readExtension flags names).tail (Tame.map (fun _ => rfl) fun _ => rfl)
  exact (hstart.skip flags).congr (readOpening_eq flags names)

end DataTree.Pattern
