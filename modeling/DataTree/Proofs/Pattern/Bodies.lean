import DataTree.Proofs.Pattern.Groups

/-!
# DataTree.Proofs.Pattern.Bodies

The body of a group reads the same with the end of a group behind it (`tame_readBody`), and with
any fuel that exceeds the number of its characters (`readBody_fuel`).

A body ends at a closing parenthesis or where the text ends (`readBody_rest`).  Therefore a body
that has been read to the end of its text is followed by the parenthesis behind that text, unless
its last comment takes that in.
-/

namespace DataTree.Pattern

open Remainder

variable {γ : Type} [Remainder γ] {c : Char} {cs ds : List Char}

instance : Remainder Part where
  rest part := part.rest
  more part := { part with rest := part.rest ++ closing }
  rest_more _ := rfl

theorem Tame.of_part {f : Part → Except Fault γ} {stuck : γ → Prop}
    (h : ∀ regex depth names, Tame (fun cs => f ⟨regex, depth, names, cs⟩) stuck) : Tame f stuck :=
  ⟨fun {part _} hy => (h part.regex part.depth part.names).suffix hy,
    fun part => (h part.regex part.depth part.names).grown part.rest⟩

theorem Tame.of_opening {f : Opening → Except Fault γ} {stuck : γ → Prop}
    (hdirective : ∀ flags, Tame (fun cs => f (.directive flags cs)) stuck)
    (hgroup : ∀ captures flags names, Tame (fun cs => f (.group captures flags names cs)) stuck) :
    Tame f stuck where
  suffix {x y} hy := by
    cases x with
    | directive flags cs => exact (hdirective flags).suffix hy
    | group captures flags names cs => exact (hgroup captures flags names).suffix hy
  grown x := by
    cases x with
    | directive flags cs => exact (hdirective flags).grown cs
    | group captures flags names cs => exact (hgroup captures flags names).grown cs

/-! ## Parts without a group in them -/

section

variable (flags : Flags) (body : Body)

/-- What a character other than a parenthesis adds to a body, together with what belongs to it. -/
def readAtom (c : Char) (cs : List Char) : Except Fault (Body × List Char) :=
  match c with
  | '|' => .ok (body.nextBranch, cs)
  | '[' => readClass flags cs >>= fun y => .ok (body.push (.one y.1.set) y.1.depth, y.2)
  | '?' => body.repeatLast 0 (some 1) >>= fun body => .ok (body, dropLazy cs)
  | '*' => body.repeatLast 0 none >>= fun body => .ok (body, dropLazy cs)
  | '+' => body.repeatLast 1 none >>= fun body => .ok (body, dropLazy cs)
  | '\x7b' => readCounts flags cs >>= fun y =>
      body.repeatLast y.1 y.2.1 >>= fun body => .ok (body, dropLazy y.2.2)
  | '\\' => readEscape flags cs >>= fun y => y.1.toRegex flags >>= fun r => .ok (body.push r 0, y.2)
  | '.' => dot flags >>= fun r => .ok (body.push r 0, cs)
  | '^' =>
    .ok (body.push (.look (if flags.multiLine then .lineStart flags.crlf else .textStart)) 0, cs)
  | '$' => .ok (body.push (.look (if flags.multiLine then .lineEnd flags.crlf else .textEnd)) 0, cs)
  | c => .ok (body.push (literal flags c) 0, cs)

/-- A brace is left over that nothing but the closing stands in. -/
def StrayBrace (y : Body × List Char) : Prop := ∃ ds, y.2 = '\x7b' :: ds ∧ flags.skip ds = closing

theorem tame_repeat (body : Except Fault Body) :
    Tame (fun cs => body >>= fun body => .ok (body, dropLazy cs)) (StrayBrace flags) :=
  Tame.after body fun body => tame_dropLazy.bind (Tame.pair body)

theorem tame_readAtom (c : Char) : Tame (readAtom flags body c) (StrayBrace flags) := by
  by_cases hc : c ∈ ['|', '[', '?', '*', '+', '\x7b', '\\', '.', '^', '$']
  · simp only [List.mem_cons, List.not_mem_nil, or_false] at hc
    rcases hc with rfl | rfl | rfl | rfl | rfl | rfl | rfl | rfl | rfl | rfl
    · exact Tame.pair _
    · exact (tame_readClass flags).bind
        (Tame.of_pair fun part => Tame.pair (body.push (.one part.set) part.depth))
    · exact tame_repeat flags _
    · exact tame_repeat flags _
    · exact tame_repeat flags _
    · exact (tame_readCounts flags).bind
        (Tame.of_pair fun min => Tame.of_pair fun max =>
          tame_repeat flags (body.repeatLast min max))
    · have hpush (p : Primitive) :
          Tame (fun cs : List Char => p.toRegex flags >>= fun r => .ok (body.push r 0, cs))
          (StrayBrace flags) := Tame.after (p.toRegex flags) fun r => Tame.pair (body.push r 0)
      refine Tame.bind_of_stuck (tame_readEscape flags) (Tame.of_pair hpush) ?_
      rintro ⟨p, _⟩ z ⟨⟨l, rfl⟩, ds, rfl, hds⟩ hz _
      obtain rfl := Except.ok.inj hz
      exact ⟨ds, rfl, hds⟩
    · exact Tame.after (dot flags) fun r => Tame.pair (body.push r 0)
    · exact Tame.pair _
    · exact Tame.pair _
  · simp only [List.mem_cons, List.not_mem_nil, or_false, not_or] at hc
    refine (Tame.pair (body.push (literal flags c) 0)).congr fun cs => ?_
    simp [readAtom, hc]

end

/-! ## The steps of a body -/

section

variable (fuel : Nat) (flags : Flags) (names : List String) (body : Body)

theorem readBody_nil (h : flags.skip cs = []) :
    readBody (fuel + 1) flags names body cs = .ok ⟨body.finish.1, body.finish.2, names, []⟩ := by
  simp only [readBody, h]

theorem readBody_paren (h : flags.skip cs = ')' :: ds) :
    readBody (fuel + 1) flags names body cs =
      .ok ⟨body.finish.1, body.finish.2, names, ')' :: ds⟩ := by
  simp only [readBody, h]

theorem readBody_atom (h : flags.skip cs = c :: ds) (hopen : c ≠ '(') (hclose : c ≠ ')') :
    readBody (fuel + 1) flags names body cs =
      readAtom flags body c ds >>= fun y => readBody fuel flags names y.1 y.2 := by
  rw [readBody, h]
  split
  · next h => cases h
  · next h => exact absurd (List.cons.inj h).1 hclose
  · next h =>
    obtain ⟨rfl, rfl⟩ := List.cons.inj h
    rfl
  · next h => exact absurd (List.cons.inj h).1 hopen
  iterate 9
    next h =>
      obtain ⟨rfl, rfl⟩ := List.cons.inj h
      simp only [readAtom, bind_assoc, ok_bind]
  · next h =>
    obtain ⟨rfl, rfl⟩ := List.cons.inj h
    have hatom : readAtom flags body c ds = .ok (body.push (literal flags c) 0, ds) := by
      simp [readAtom, *]
    rw [hatom, ok_bind]

/-- The rest of the surrounding body, behind a group. -/
def readBehind (captures : Bool) (part : Part) : Except Fault Part :=
  match part.rest with
  | ')' :: rest =>
    readBody fuel flags part.names (body.push (.group captures part.regex) (part.depth + 1)) rest
  | _ => .error .unclosedGroup

/-- A group, and the rest of the surrounding body. -/
def readGroup : Opening → Except Fault Part
  | .directive flags rest => readBody fuel flags names body.pushFlags rest
  | .group captures inner names rest =>
    readBody fuel inner names {} rest >>= readBehind fuel flags body captures

theorem readBody_group (h : flags.skip cs = '(' :: ds) :
    readBody (fuel + 1) flags names body cs =
      readOpening flags names ds >>= readGroup fuel flags names body := by
  simp only [readBody, h]
  cases readOpening flags names ds with
  | error err => rfl
  | ok opening => cases opening <;> rfl

end

/-- Nothing comes of a brace that only the closing stands in. -/
theorem not_readBody_of_stray {fuel : Nat} {flags : Flags} {names : List String} {body : Body}
    {part : Part} (h : flags.skip ds = closing) :
    readBody fuel flags names body ('\x7b' :: ds) ≠ .ok part := by
  cases fuel with
  | zero => exact nofun
  | succ fuel =>
    have hskip : flags.skip ('\x7b' :: ds) = '\x7b' :: ds := flags.skip_cons rfl (by decide) ds
    have hcounts : readCounts flags ds = .error .badCount := by
      rw [readCounts_eq, h, readCount_closing]
      rfl
    rw [readBody_atom fuel flags names body hskip (by decide) (by decide)]
    simp [readAtom, hcounts]

section

variable {fuel : Nat} (hbody : ∀ flags names body, Tame (readBody fuel flags names body))

include hbody

/-- Where the text ends within a group, that is an error, and the group takes the parenthesis behind
it. -/
theorem tame_readBehind (flags : Flags) (body : Body) (captures : Bool) :
    Tame (readBehind fuel flags body captures) := by
  refine Tame.of_part fun regex depth names => Tame.of_led_error (fun y => by simp [readBehind])
    (fun y hy => (hbody _ _ _).suffix hy) fun c => ?_
  by_cases hc : c = ')'
  · subst hc
    refine (hbody flags names
      (body.push (.group captures regex) (depth + 1))).tail.congr fun p => ?_
    simp only [readBehind]
  · exact (Tame.error .unclosedGroup).congr fun p => by simp [readBehind, hc]

theorem tame_readGroup (flags : Flags) (names : List String) (body : Body) :
    Tame (readGroup fuel flags names body) :=
  Tame.of_opening (fun flags => hbody flags names body.pushFlags)
    fun captures inner names => (hbody inner names {}).bind
      (tame_readBehind hbody flags body captures)

end

/-- **A body reads the same** with the closing behind it. -/
theorem tame_readBody (fuel : Nat) (flags : Flags) (names : List String) (body : Body) :
    Tame (readBody fuel flags names body) := by
  induction fuel generalizing flags names body with
  | zero => exact Tame.error _
  | succ fuel ih =>
    have hnil := readBody_nil fuel flags names body flags.skip_nil
    have hclosing := readBody_paren fuel flags names body (flags.skip_paren ['$'])
    refine Tame.of_skip flags (fun cs => by simp only [readBody, flags.skip_skip]) ?_
      (fun y hy => ?_) fun c hc => ?_
    · rw [hnil, show closing = [')', '$'] from rfl, hclosing]
      exact .left (⟨body.finish.1, body.finish.2, names, []⟩ : Part)
    · rw [hnil] at hy
      obtain rfl := Except.ok.inj hy
      rfl
    by_cases hclose : c = ')'
    · subst hclose
      have hend : Tame fun p : Led ')' =>
          .ok (⟨body.finish.1, body.finish.2, names, ')' :: p.tail⟩ : Part) :=
        Tame.map (fun _ => rfl) fun _ => rfl
      exact hend.congr fun p => readBody_paren fuel flags names body (hc p.tail)
    by_cases hopen : c = '('
    · subst hopen
      exact ((tame_readOpening flags names).bind
        (tame_readGroup ih flags names body)).tail.congr fun p =>
        readBody_group fuel flags names body (hc p.tail)
    · have hatom : Tame fun cs => readAtom flags body c cs >>= fun y =>
          readBody fuel flags names y.1 y.2 := by
        refine Tame.bind_of_stuck (tame_readAtom flags body c)
          (Tame.of_pair fun body => ih flags names body) ?_
        rintro ⟨body, _⟩ z ⟨ds, rfl, hds⟩ hz
        exact absurd hz (not_readBody_of_stray hds)
      exact hatom.tail.congr fun p => readBody_atom fuel flags names body (hc p.tail) hopen hclose

/-! ## Ends of bodies -/

/-- A body ends where the text ends, or at a closing parenthesis. -/
theorem readBody_rest {fuel : Nat} {flags : Flags} {names : List String} {body : Body} {part : Part}
    (h : readBody fuel flags names body cs = .ok part) :
    part.rest = [] ∨ ∃ ds, part.rest = ')' :: ds := by
  induction fuel generalizing flags names body cs part with
  | zero => cases h
  | succ fuel ih =>
    cases hskip : flags.skip cs with
    | nil =>
      rw [readBody_nil fuel flags names body hskip] at h
      obtain rfl := Except.ok.inj h
      exact .inl rfl
    | cons c ds =>
      by_cases hclose : c = ')'
      · subst hclose
        rw [readBody_paren fuel flags names body hskip] at h
        obtain rfl := Except.ok.inj h
        exact .inr ⟨ds, rfl⟩
      by_cases hopen : c = '('
      · subst hopen
        rw [readBody_group fuel flags names body hskip] at h
        obtain ⟨opening, -, h⟩ := Outcome.bind_eq_ok.1 h
        cases opening with
        | directive => exact ih h
        | group captures inner names rest =>
          obtain ⟨part, -, h⟩ := Outcome.bind_eq_ok.1 h
          unfold readBehind at h
          split at h
          · exact ih h
          · cases h
      · rw [readBody_atom fuel flags names body hskip hopen hclose] at h
        obtain ⟨y, -, h⟩ := Outcome.bind_eq_ok.1 h
        exact ih h

theorem readGroup_fuel {m n : Nat} {opening : Opening}
    (h : ∀ {es}, es <:+ rest opening →
      ∀ flags names body, readBody m flags names body es = readBody n flags names body es)
    (flags : Flags) (names : List String) (body : Body) :
    readGroup m flags names body opening = readGroup n flags names body opening := by
  cases opening with
  | directive flags es => exact h List.suffix_rfl flags names body.pushFlags
  | group captures inner names es =>
    have hinner : readBody m inner names {} es = readBody n inner names {} es :=
      h List.suffix_rfl inner names {}
    simp only [readGroup, hinner]
    cases hpart : readBody n inner names {} es with
    | error err => rfl
    | ok part =>
      have hbehind : part.rest <:+ es := (tame_readBody n inner names {}).suffix hpart
      simp only [ok_bind, readBehind]
      split
      · next fs hfs => exact h ((List.suffix_cons _ fs).trans (hfs ▸ hbehind)) _ _ _
      · rfl

/-- Fuel beyond the length of the text makes no difference. -/
theorem readBody_fuel {m n : Nat} (hm : cs.length < m) (hn : cs.length < n) (flags : Flags)
    (names : List String) (body : Body) :
    readBody m flags names body cs = readBody n flags names body cs := by
  induction m generalizing n flags names body cs with
  | zero => omega
  | succ m ih =>
    obtain ⟨n, rfl⟩ := Nat.exists_eq_add_one_of_ne_zero (Nat.ne_zero_of_lt hn)
    cases hskip : flags.skip cs with
    | nil => rw [readBody_nil m flags names body hskip, readBody_nil n flags names body hskip]
    | cons c ds =>
      have hlength := Flags.length_of_skip hskip
      have hrest {es : List Char} (h : es <:+ ds) (flags : Flags)
          (names : List String) (body : Body) :
          readBody m flags names body es = readBody n flags names body es := by
        have := h.length_le
        exact ih (by omega) (by omega) flags names body
      by_cases hclose : c = ')'
      · subst hclose
        rw [readBody_paren m flags names body hskip, readBody_paren n flags names body hskip]
      by_cases hopen : c = '('
      · subst hopen
        rw [readBody_group m flags names body hskip, readBody_group n flags names body hskip]
        cases ho : readOpening flags names ds with
        | error err => rfl
        | ok opening =>
          have hopening : rest opening <:+ ds := (tame_readOpening flags names).suffix ho
          exact readGroup_fuel (fun h => hrest (h.trans hopening)) flags names body
      · rw [readBody_atom m flags names body hskip hopen hclose,
          readBody_atom n flags names body hskip hopen hclose]
        cases hy : readAtom flags body c ds with
        | error err => rfl
        | ok y => exact hrest ((tame_readAtom flags body c).suffix hy) flags names y.1

end DataTree.Pattern
