import DataTree.Pattern.Class
import DataTree.Proofs.Pattern.Escapes

/-!
# DataTree.Proofs.Pattern.Classes

Classes read the same with the end of a group behind them.

A class that is not closed stays open: there is no closing bracket in what stands behind the text
(`readClassBody_tame`).  The fuel has no influence on a class as soon as it exceeds the number of
characters (`readClassBody_fuel`).

Members, operations and the opening of a class are readers of their own here, and the readers of
classes are put together from them.
-/

namespace DataTree.Pattern

open Remainder
open Text (CharSet)

variable {α : Type} (flags : Flags) {c : Char} {cs ds : List Char}

/-! ## The opening of a class -/

/-- Hyphens at the start of a class. -/
theorem tame_readHyphens (o : Operand) : Tame fun cs => .ok (readHyphens flags o cs) := by
  have htake := tame_take flags (p := (· == '-')) rfl
  exact (htake.bind_pair fun hyphens =>
    Tame.pair (hyphens.foldl (fun o c => o.push (.single c) 0) o)).congr fun _ => rfl

/-- What may stand first in a class: a closing bracket, or hyphens. -/
def readFirst : List Char → Operand × List Char
  | ']' :: rest => (Operand.push {} (.single ']') 0, flags.skip rest)
  | cs => readHyphens flags {} cs

variable {flags} in
/-- Without a bracket in front a class starts with its hyphens. -/
theorem readFirst_other (h : ∀ ds, cs ≠ ']' :: ds) :
    readFirst flags cs = readHyphens flags {} cs := by
  unfold readFirst
  split
  · exact absurd rfl (h _)
  · rfl

/-- The first member of a class, which may be a closing bracket. -/
theorem tame_readFirst : Tame fun cs => .ok (readFirst flags cs) :=
  Tame.of_char ']' (by decide) (fun _ h => congrArg _ (readFirst_other h))
    (tame_skip_pair flags (Operand.push {} (.single ']') 0)).tail (tame_readHyphens flags {})

/-- The circumflex of a class, where there is one, and what may stand first. -/
def readNegation : List Char → Bool × Operand × List Char
  | '^' :: rest => (true, readFirst flags (flags.skip rest))
  | cs => (false, readFirst flags cs)

variable {flags} in
/-- Without a circumflex in front a class is not negated. -/
theorem readNegation_other (h : ∀ ds, cs ≠ '^' :: ds) :
    readNegation flags cs = (false, readFirst flags cs) := by
  unfold readNegation
  split
  · exact absurd rfl (h _)
  · rfl

/-- The circumflex that negates a class. -/
theorem tame_readNegation : Tame fun cs => .ok (readNegation flags cs) := by
  have hfirst (negated : Bool) : Tame fun cs =>
      (.ok (negated, readFirst flags cs) : Except Fault _) :=
    (tame_readFirst flags).bind (Tame.pair negated)
  exact Tame.of_char '^' (by decide) (fun _ h => congrArg _ (readNegation_other h))
    ((hfirst true).skip flags).tail (hfirst false)

theorem readClassStart_eq (cs : List Char) :
    readClassStart flags cs = readNegation flags (flags.skip cs) := by
  unfold readClassStart
  generalize flags.skip cs = ds
  by_cases h : ∃ rest, ds = '^' :: rest
  · obtain ⟨rest, rfl⟩ := h
    simp only [readNegation, readFirst]
    generalize flags.skip rest = es
    split <;> simp_all
  · have h := not_exists.1 h
    simp only [readNegation, readFirst]
    split <;> simp_all

/-- The start of a class, up to its first member. -/
theorem tame_readClassStart : Tame fun cs => .ok (readClassStart flags cs) :=
  ((tame_readNegation flags).skip flags).congr fun cs => by rw [readClassStart_eq]

theorem readClassStart_suffix (cs : List Char) : (readClassStart flags cs).2.2 <:+ cs :=
  (tame_readClassStart flags).suffix rfl

/-! ## Items -/

/-- What is no escape stands for itself. -/
theorem readClassItem_char (hc : c ≠ '\\') (cs : List Char) :
    readClassItem flags (c :: cs) = .ok (.char c, cs) := by
  unfold readClassItem
  split
  · next h => cases h
  · next h => exact absurd (List.cons.inj h).1 hc
  · next h =>
    obtain ⟨rfl, rfl⟩ := List.cons.inj h
    rfl

/-- An item of a class, by its first character. -/
theorem tame_readClassItem_cons (c : Char) :
    Tame (fun cs => readClassItem flags (c :: cs)) (Stray flags) := by
  by_cases hc : c = '\\'
  · subst hc
    exact tame_readEscape flags
  · exact (Tame.pair (.char c)).congr (readClassItem_char flags hc)

/-- An item of a class. -/
theorem tame_readClassItem : Tame (readClassItem flags) (Stray flags) :=
  Tame.of_led_error (fun y => by simp [readClassItem])
    (fun _ => (tame_readClassItem_cons flags ')').suffix)
    fun c => (tame_readClassItem_cons flags c).tail

/-- No blank is added by the closing. -/
theorem dropBlank_closing (cs : List Char) :
    (cs ++ closing).dropWhile Text.isBlank = cs.dropWhile Text.isBlank ++ closing := by
  rw [List.dropWhile_append]
  split
  · next h => rw [List.isEmpty_iff.1 h]; rfl
  · rfl

/-- The next character behind a text is the parenthesis. -/
theorem peek_closing (cs : List Char) :
    flags.peek (cs ++ closing) = (flags.peek cs).or (some ')') := by
  have hhead (ds : List Char) : (ds ++ closing).head? = ds.head?.or (some ')') := by simp [closing]
  unfold Flags.peek
  split
  · rw [dropBlank_closing]
    rcases List.dropWhile Text.isBlank cs with _ | ⟨c, ds⟩
    · rfl
    by_cases hc : c = '#'
    · subst hc
      simp only [List.cons_append, dropBlank_closing, hhead]
    · simp [hc]
  · exact hhead cs

/-- The characters of an interval. -/
def interval : Primitive → Primitive → Except Fault CharSet
  | .char lo, .char hi =>
    if lo ≤ hi then charItem flags hi >>= fun _ => .ok (.range lo hi) else .error .badClassRange
  | _, _ => .error .badClassRange

/-- The end of an interval behind its hyphen. -/
def readIntervalEnd (first : Primitive) (cs : List Char) : Except Fault (CharSet × List Char) :=
  readClassItem flags (flags.skip cs) >>= fun y =>
    interval flags first y.1 >>= fun s => .ok (s, y.2)

/-- What follows the first item of a class: something else, or the end of an interval. -/
def readInterval (first : Primitive) (cs : List Char) : Except Fault (CharSet × List Char) :=
  match flags.skip cs with
  | [] => .error .unclosedClass
  | '-' :: behind =>
    if flags.peek behind = some ']' ∨ flags.peek behind = some '-' then
      first.toSet flags >>= fun s => .ok (s, '-' :: behind)
    else readIntervalEnd flags first behind
  | rest => first.toSet flags >>= fun s => .ok (s, rest)

/-- An item, and what may make an interval of it. -/
theorem readClassRange_eq (cs : List Char) :
    readClassRange flags cs = readClassItem flags cs >>= fun y => readInterval flags y.1 y.2 := by
  unfold readClassRange
  cases readClassItem flags cs with
  | error err => rfl
  | ok y =>
    obtain ⟨first, cs⟩ := y
    simp only [ok_bind, readInterval, readIntervalEnd]
    rcases flags.skip cs with _ | ⟨c, behind⟩
    · rfl
    by_cases hc : c = '-'
    · subst hc
      simp only
      split
      · rfl
      cases readClassItem flags (flags.skip behind) with
      | error err => rfl
      | ok z =>
        obtain ⟨last, ds⟩ := z
        cases first <;> cases last <;> try rfl
        simp only [ok_bind, interval]
        split
        · cases charItem flags _ <;> rfl
        · rfl
    · simp [hc]

variable {flags}

/-- A condition on the position is no end of an interval. -/
theorem not_interval_of_look {first : Primitive} {l : Look} {s : CharSet} :
    interval flags first (.look l) ≠ .ok s := by
  cases first <;> simp [interval]

/-- The end of an interval. -/
theorem tame_readIntervalEnd (first : Primitive) : Tame (readIntervalEnd flags first) := by
  refine Tame.bind_of_stuck (g := fun y => interval flags first y.1 >>= fun s => .ok (s, y.2))
    ((tame_readClassItem flags).skip flags)
    (Tame.of_pair fun last => Tame.outcome (interval flags first last)) ?_
  rintro ⟨last, cs⟩ z ⟨⟨l, rfl⟩, -⟩ hz
  cases h : interval flags first (.look l) with
  | error err => simp [h] at hz
  | ok s => exact absurd h not_interval_of_look

/-- Where the text ends behind an item, the closing is what follows it. -/
theorem tame_readInterval (first : Primitive) :
    Tame (readInterval flags first) fun y => y.2 = closing := by
  have halone : Tame (fun cs => first.toSet flags >>= fun s => .ok (s, cs))
      fun y : CharSet × List Char => y.2 = closing := Tame.outcome _
  have hlast : Tame (readIntervalEnd flags first) fun y : CharSet × List Char => y.2 = closing :=
    (tame_readIntervalEnd first).mono fun _ => False.elim
  refine Tame.of_skip flags (fun cs => by simp only [readInterval, flags.skip_skip])
    ?_ ?_ fun c h => ?_
  · refine .of_ne_ok (by simp [readInterval]) fun y hy _ => ?_
    have hparen : readInterval flags first closing = first.toSet flags >>= fun s =>
        .ok (s, closing) := by
      simp [readInterval, closing]
    rw [hparen] at hy
    cases hset : first.toSet flags with
    | error err => simp [hset] at hy
    | ok s =>
      rw [hset] at hy
      obtain rfl := Except.ok.inj hy
      rfl
  · simp [readInterval]
  by_cases hc : c = '-'
  · subst hc
    refine (Tame.ite (q :=
      fun p => flags.peek p.tail = some ']' ∨ flags.peek p.tail = some '-') (fun p => ?_)
      halone.led hlast.tail).congr fun p => ?_
    · rw [show (more p).tail = p.tail ++ closing from rfl, peek_closing]
      cases flags.peek p.tail <;> simp
    · simp only [readInterval, h]
  · refine halone.led.congr fun p => ?_
    simp [readInterval, h, hc]

/-- Nor is it the start of one. -/
theorem not_readInterval_of_look {l : Look} {y : CharSet × List Char} :
    readInterval flags (.look l) cs ≠ .ok y := by
  intro h
  unfold readInterval at h
  split at h
  · cases h
  · next behind _ =>
    split at h
    · cases h
    · cases hlast : readClassItem flags (flags.skip behind) with
      | error err => simp [readIntervalEnd, hlast] at h
      | ok z => simp [readIntervalEnd, hlast, interval] at h
  · cases h

variable (flags)

/-- An item or an interval takes a character at least. -/
theorem tame_readClassRange_cons (c : Char) :
    Tame (fun cs => readClassRange flags (c :: cs)) fun y => y.2 = closing := by
  have hitem := tame_readClassItem_cons flags c
  refine (Tame.bind_of_stuck hitem (Tame.of_pair tame_readInterval) ?_).congr fun cs =>
    readClassRange_eq flags (c :: cs)
  rintro ⟨first, cs⟩ z ⟨⟨l, rfl⟩, -⟩ hz
  exact absurd hz not_readInterval_of_look

/-- The name of a class of characters, and the colon and the bracket behind it. -/
def readAsciiName? (negated : Bool) (cs : List Char) : Option (CharSet × Bool × List Char) :=
  match cs.dropWhile (· != ':') with
  | ':' :: ']' :: rest =>
    (asciiNamed? (String.ofList (cs.takeWhile (· != ':')))).map (·, negated, rest)
  | _ => none

theorem readAsciiClass?_plain (h : ∀ ds, cs ≠ '^' :: ds) :
    readAsciiClass? (':' :: cs) = readAsciiName? false cs := by
  rcases cs with _ | ⟨c, cs⟩
  · rfl
  · have hc : c ≠ '^' := fun hc => h cs (hc ▸ rfl)
    simp only [readAsciiClass?]
    rfl

/-- The name of a class of ASCII characters does not go on into the closing. -/
theorem readAsciiName?_closing (negated : Bool) (cs : List Char) :
    readAsciiName? negated (cs ++ closing) = (readAsciiName? negated cs).map more := by
  unfold readAsciiName?
  rcases h : cs.dropWhile (· != ':') with _ | ⟨c, ds⟩
  · rw [dropWhile_closing (by decide) h]
    rfl
  · rw [(span_closing h).1, (span_closing h).2]
    rcases ds with _ | ⟨d, ds⟩
    · simp [closing]
    by_cases hd : c = ':' ∧ d = ']'
    · obtain ⟨rfl, rfl⟩ := hd
      cases asciiNamed? (String.ofList (cs.takeWhile (· != ':'))) <;> rfl
    · have hother : ∀ {es rest : List Char}, c :: d :: es ≠ ':' :: ']' :: rest := fun h =>
        hd ⟨(List.cons.inj h).1, (List.cons.inj (List.cons.inj h).2).1⟩
      simp only [List.cons_append]
      split
      · next h => exact absurd h hother
      · split
        · next h => exact absurd h hother
        · rfl

/-- The name of a class of characters ends in front of the closing. -/
theorem readAsciiClass?_closing (cs : List Char) :
    readAsciiClass? (cs ++ closing) = (readAsciiClass? cs).map more := by
  rcases cs with _ | ⟨c, cs⟩
  · rfl
  by_cases hc : c = ':'
  · subst hc
    rcases cs with _ | ⟨d, cs⟩
    · rfl
    by_cases hd : d = '^'
    · subst hd
      exact readAsciiName?_closing true cs
    · rw [readAsciiClass?_plain (by simp [hd]), ← readAsciiName?_closing]
      exact readAsciiClass?_plain (by simp [hd])
  · simp [readAsciiClass?, hc]

theorem readAsciiName?_suffix {negated : Bool} {y : CharSet × Bool × List Char}
    (h : readAsciiName? negated cs = some y) : y.2.2 <:+ cs := by
  unfold readAsciiName? at h
  split at h
  · next rest hrest =>
    obtain ⟨s, -, rfl⟩ := Option.map_eq_some_iff.1 h
    have hdrop : ':' :: ']' :: rest <:+ cs := hrest ▸ List.dropWhile_suffix _
    exact (List.suffix_cons ']' rest).trans ((List.suffix_cons ':' _).trans hdrop)
  · cases h

theorem readAsciiClass?_suffix {y : CharSet × Bool × List Char} (h : readAsciiClass? cs = some y) :
    y.2.2 <:+ cs := by
  rcases cs with _ | ⟨c, cs⟩
  · cases h
  by_cases hc : c = ':'
  · subst hc
    refine List.IsSuffix.trans ?_ (List.suffix_cons _ cs)
    by_cases hcaret : ∃ ds, cs = '^' :: ds
    · obtain ⟨ds, rfl⟩ := hcaret
      exact (readAsciiName?_suffix h).trans (List.suffix_cons _ ds)
    · rw [readAsciiClass?_plain (not_exists.1 hcaret)] at h
      exact readAsciiName?_suffix h
  · simp [readAsciiClass?, hc] at h

/-! ## Classes -/

/-- The operation that a text starts with. -/
def setOp? : List Char → Option (SetOp × List Char)
  | '&' :: '&' :: rest => some (.inter, rest)
  | '-' :: '-' :: rest => some (.diff, rest)
  | '~' :: '~' :: rest => some (.symmDiff, rest)
  | _ => none

theorem setOp?_suffix {y : SetOp × List Char} (h : setOp? (c :: cs) = some y) : y.2 <:+ cs := by
  unfold setOp? at h
  split at h
  iterate 3
    next heq =>
      obtain ⟨-, rfl⟩ := List.cons.inj heq
      obtain rfl := Option.some.inj h
      exact List.suffix_cons _ _
  cases h

/-- Nor does an operator between sets. -/
theorem setOp?_closing (cs : List Char) : setOp? (cs ++ closing) = (setOp? cs).map more := by
  rcases cs with _ | ⟨c, _ | ⟨d, cs⟩⟩
  · rfl
  · simp [setOp?, closing]
  · simp only [List.cons_append]
    unfold setOp?
    split
    iterate 3
      next h =>
        obtain ⟨rfl, h'⟩ := List.cons.inj h
        obtain ⟨rfl, rfl⟩ := List.cons.inj h'
        rfl
    next hand hhyphen htilde =>
      have hother {e : Char} (h : ∀ rest, c :: d :: (cs ++ closing) = e :: e :: rest → False)
          {rest : List Char} :
          c :: d :: cs ≠ e :: e :: rest := fun heq =>
        h (rest ++ closing) (by rw [← List.cons_append, ← List.cons_append, heq]; rfl)
      split
      · next h => exact absurd h (hother hand)
      · next h => exact absurd h (hother hhyphen)
      · next h => exact absurd h (hother htilde)
      · rfl

/-- What stands behind the opening of a class. -/
def readOpened (fuel : Nat) (y : Bool × Operand × List Char) :
    Except Fault (ClassPart × List Char) :=
  readClassBody flags fuel y.1 none y.2.1 y.2.2

/-- A member of a class with its depth: a named class, a class in brackets, or an interval. -/
def readMember (fuel : Nat) : List Char → Except Fault (ClassPart × List Char)
  | '[' :: cs =>
    (readAsciiClass? cs).elim (readOpened flags fuel (readClassStart flags cs))
      fun y => finishSet flags y.2.1 y.1 >>= fun s => .ok (⟨s, 0⟩, y.2.2)
  | cs => readClassRange flags cs >>= fun y => .ok (⟨y.1, 0⟩, y.2)

/-- What does not start with a bracket is an item or an interval. -/
theorem readMember_of_ne (fuel : Nat) (hc : c ≠ '[') (cs : List Char) :
    readMember flags fuel (c :: cs) = readClassRange flags (c :: cs) >>= fun y =>
      .ok (⟨y.1, 0⟩, y.2) := by
  unfold readMember
  split
  · next h => exact absurd (List.cons.inj h).1 hc
  · rfl

section

variable (fuel : Nat) (negated : Bool) (pending : Option (ClassPart × SetOp)) (o : Operand)

/-- A bracket ends the class. -/
theorem readClassBody_bracket (h : flags.skip cs = ']' :: ds) :
    readClassBody flags (fuel + 1) negated pending o cs =
    finishSet flags negated (combine flags pending o).set >>=
      fun s => .ok (⟨s, (combine flags pending o).depth + 1⟩, ds) := by
  simp only [readClassBody, h]
  cases finishSet flags negated (combine flags pending o).set <;> rfl

/-- An operator ends an operand. -/
theorem readClassBody_op {op : SetOp} (h : setOp? (flags.skip cs) = some (op, ds)) :
    readClassBody flags (fuel + 1) negated pending o cs =
      readClassBody flags fuel negated (some (combine flags pending o, op)) {} ds := by
  unfold setOp? at h
  split at h
  iterate 3
    next hskip =>
      obtain ⟨rfl, rfl⟩ := Prod.mk.inj (Option.some.inj h)
      simp only [readClassBody, hskip]
  cases h

/-- Anything else is a member. -/
theorem readClassBody_member (h : flags.skip cs = c :: ds) (hop : setOp? (c :: ds) = none)
    (hc : c ≠ ']') :
    readClassBody flags (fuel + 1) negated pending o cs = readMember flags fuel (c :: ds) >>=
      fun y => readClassBody flags fuel negated pending (o.push y.1.set y.1.depth) y.2 := by
  rw [readClassBody, h]
  split
  · next h => cases h
  · next h => exact absurd (List.cons.inj h).1 hc
  iterate 3
    next h =>
      rw [h] at hop
      cases hop
  · next cs h =>
    obtain ⟨rfl, rfl⟩ := List.cons.inj h
    simp only [readMember]
    cases readAsciiClass? ds with
    | none => rfl
    | some y =>
      obtain ⟨s, inverted, rest⟩ := y
      simp only [Option.elim]
      cases finishSet flags inverted s <;> rfl
  · next hne =>
    rw [readMember_of_ne flags fuel (fun h => hne ds (h ▸ rfl))]
    cases readClassRange flags (c :: ds) <;> rfl

end

/-- What stands behind the opening bracket. -/
theorem tame_readOpened {fuel : Nat}
    (hbody : ∀ negated pending o, Tame (readClassBody flags fuel negated pending o)) :
    Tame (readOpened flags fuel) :=
  Tame.of_pair fun negated => Tame.of_pair fun start => hbody negated none start

/-- A member of a class is not empty; an interval may end where the closing starts. -/
theorem tame_readMember_cons {fuel : Nat}
    (hbody : ∀ negated pending o, Tame (readClassBody flags fuel negated pending o)) (c : Char) :
    Tame (fun cs => readMember flags fuel (c :: cs)) fun y => y.2 = closing := by
  by_cases hc : c = '['
  · subst hc
    have hnamed : Tame fun y : CharSet × Bool × List Char =>
        finishSet flags y.2.1 y.1 >>= fun s => .ok ((⟨s, 0⟩ : ClassPart), y.2.2) :=
      Tame.of_pair fun s => Tame.of_pair fun inverted =>
        Tame.after (finishSet flags inverted s) fun s => Tame.pair _
    have hnested := (tame_readClassStart flags).bind (tame_readOpened flags hbody)
    have hbracket : Tame fun cs => readMember flags fuel ('[' :: cs) :=
      Tame.option readAsciiClass?_closing readAsciiClass?_suffix hnamed hnested
    exact hbracket.mono fun _ => False.elim
  · refine Tame.congr ?_ fun cs => readMember_of_ne flags fuel hc cs
    refine Tame.bind_of_stuck (tame_readClassRange_cons flags c)
      (Tame.of_pair fun s => Tame.pair (ClassPart.mk s 0)) ?_
    intro y z hy hz _
    obtain rfl := Except.ok.inj hz
    exact hy

/-- **A class stays open** behind the text, and reads the same otherwise. -/
theorem readClassBody_tame (fuel : Nat) (negated : Bool) (pending : Option (ClassPart × SetOp))
    (o : Operand) :
    Tame (readClassBody flags fuel negated pending o) ∧
      ∀ {y}, readClassBody flags fuel negated pending o closing = .ok y → y.2 <:+ ['$'] := by
  induction fuel generalizing negated pending o with
  | zero => exact ⟨Tame.error _, fun h => nomatch h⟩
  | succ fuel ih =>
    have hafter (c : Char) : Tame fun cs => readMember flags fuel (c :: cs) >>=
        fun y => readClassBody flags fuel negated pending (o.push y.1.set y.1.depth) y.2 := by
      refine Tame.bind_of_stuck (tame_readMember_cons flags (fun n p o => (ih n p o).1) c)
        (Tame.of_pair fun part => (ih negated pending (o.push part.set part.depth)).1) ?_
      rintro ⟨part, cs⟩ z rfl hz hsuffix
      exact absurd (hsuffix.trans ((ih negated pending _).2 hz)) (by decide)
    have hclosing : ∀ {y}, readClassBody flags (fuel + 1) negated pending o closing = .ok y →
        y.2 <:+ ['$'] := by
      intro y h
      have hfirst :=
        readClassBody_member flags fuel negated pending o (flags.skip_paren ['$']) rfl (by decide)
      exact (hafter ')').suffix (hfirst.symm.trans h)
    refine ⟨?_, hclosing⟩
    refine Tame.of_skip_error flags (fun cs => by simp only [readClassBody, flags.skip_skip])
      (fun y => by simp [readClassBody]) (fun y => hclosing) fun c hc => ?_
    by_cases hbracket : c = ']'
    · subst hbracket
      exact (Tame.after _ fun s => Tame.pair _).tail.congr fun p =>
        readClassBody_bracket flags fuel negated pending o (hc p.tail)
    have hop : Tame fun y : SetOp × List Char =>
        readClassBody flags fuel negated (some (combine flags pending o, y.1)) {} y.2 :=
      Tame.of_pair fun op => (ih negated (some (combine flags pending o, op)) {}).1
    refine (Tame.option (q := fun p : Led c => setOp? (c :: p.tail))
      (fun p => setOp?_closing (c :: p.tail))
      (fun h => (setOp?_suffix h).trans (List.suffix_cons _ _)) hop
        (hafter c).tail).congr fun p => ?_
    cases h : setOp? (c :: p.tail) with
    | none => exact readClassBody_member flags fuel negated pending o (hc p.tail) h hbracket
    | some y => exact readClassBody_op flags fuel negated pending o (by rw [hc, h])

/-- **The inside of a class reads the same** with the closing behind it. -/
theorem tame_readClassBody (fuel : Nat) (negated : Bool) (pending : Option (ClassPart × SetOp))
    (o : Operand) : Tame (readClassBody flags fuel negated pending o) :=
  (readClassBody_tame flags fuel negated pending o).1

/-- A member needs fuel for the classes inside of it only. -/
theorem readMember_fuel {m n : Nat} (h : ∀ {es}, es <:+ cs → ∀ negated pending o,
      readClassBody flags m negated pending o es =
        readClassBody flags n negated pending o es) (c : Char) :
    readMember flags m (c :: cs) = readMember flags n (c :: cs) := by
  by_cases hc : c = '['
  · subst hc
    simp only [readMember, readOpened]
    rw [h (readClassStart_suffix flags cs)]
  · rw [readMember_of_ne flags m hc, readMember_of_ne flags n hc]

/-- Fuel beyond the length of the text makes no difference. -/
theorem readClassBody_fuel {m n : Nat} (hm : cs.length < m) (hn : cs.length < n) (negated : Bool)
    (pending : Option (ClassPart × SetOp)) (o : Operand) :
    readClassBody flags m negated pending o cs = readClassBody flags n negated pending o cs := by
  induction m generalizing n negated pending o cs with
  | zero => omega
  | succ m ih =>
    obtain ⟨n, rfl⟩ := Nat.exists_eq_add_one_of_ne_zero (Nat.ne_zero_of_lt hn)
    cases hskip : flags.skip cs with
    | nil => simp only [readClassBody, hskip]
    | cons c ds =>
      have hlength := Flags.length_of_skip hskip
      have hrest {es : List Char} (h : es <:+ ds) (negated : Bool)
          (pending : Option (ClassPart × SetOp))
          (o : Operand) : readClassBody flags m negated pending o es =
            readClassBody flags n negated pending o es := by
        have := h.length_le
        exact ih (by omega) (by omega) negated pending o
      by_cases hc : c = ']'
      · subst hc
        rw [readClassBody_bracket flags m negated pending o hskip,
          readClassBody_bracket flags n negated pending o hskip]
      cases hop : setOp? (c :: ds) with
      | some y =>
        rw [readClassBody_op flags m negated pending o (hskip ▸ hop),
          readClassBody_op flags n negated pending o (hskip ▸ hop)]
        exact hrest (setOp?_suffix hop) _ _ _
      | none =>
        rw [readClassBody_member flags m negated pending o hskip hop hc,
          readClassBody_member flags n negated pending o hskip hop hc, readMember_fuel flags hrest]
        cases hy : readMember flags n (c :: ds) with
        | error err => rfl
        | ok y =>
          exact hrest ((tame_readMember_cons flags (tame_readClassBody flags n) c).suffix hy) _ _ _

/-- A class with any fuel that exceeds the number of its characters. -/
theorem readClass_eq {n : Nat} (h : cs.length < n) :
    readClass flags cs = readOpened flags n (readClassStart flags cs) := by
  have hlength := (readClassStart_suffix flags cs).length_le
  exact readClassBody_fuel flags (Nat.lt_succ_of_le hlength) (hlength.trans_lt h) _ _ _

/-- **A class reads the same** with the closing behind it. -/
theorem tame_readClass : Tame (readClass flags) := by
  have hclass (n : Nat) : Tame fun cs => readOpened flags n (readClassStart flags cs) :=
    (tame_readClassStart flags).bind (tame_readOpened flags (tame_readClassBody flags n))
  refine ⟨fun {cs y} h => ?_, fun cs => ?_⟩
  · rw [readClass_eq flags (Nat.lt_succ_self cs.length)] at h
    exact (hclass _).suffix h
  · -- the fuel that is enough for the longer text
    have hlength : cs.length < (more cs).length + 1 := by
      simp only [more, List.length_append]
      omega
    rw [readClass_eq flags hlength, readClass_eq flags (Nat.lt_succ_self (more cs).length)]
    exact (hclass _).grown cs

end DataTree.Pattern
