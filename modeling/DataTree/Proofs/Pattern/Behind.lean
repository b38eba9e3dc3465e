import DataTree.Pattern.Reader
import DataTree.Proofs.Outcome
import Mathlib.Data.List.Infix

/-!
# DataTree.Proofs.Pattern.Behind

What becomes of the parts of a pattern when the end of a group is put behind it.

Every reader takes something from the front of a text and leaves the rest.  With a closing
parenthesis and an anchor behind the text, what was read is read again, and these are left over in
addition (`Grown.left`); only a comment that the text does not end takes them in
(`Grown.swallowed`).  Where there was an error there is one still, or the reader has gone on into
what was put behind the text (`Grown.refused`).

A reader with these properties is `Tame`.  Tame readers can be put one behind the other
(`Tame.bind`), so that all that is to be shown are the steps.
-/

namespace DataTree.Pattern

/-- The end of the group that a pattern is put into, and the anchor behind it. -/
def closing : List Char := [')', '$']

/-! ## What is left of a text -/

/-- What comes with the rest of a text that has still to be read. -/
class Remainder (β : Type) where
  rest : β → List Char
  /-- The same with the closing behind the rest. -/
  more : β → β
  rest_more : ∀ x, rest (more x) = rest x ++ closing

/-- A text with a given first character. -/
structure Led (c : Char) where
  tail : List Char

namespace Remainder

instance : Remainder (List Char) where
  rest cs := cs
  more cs := cs ++ closing
  rest_more _ := rfl

instance {α β : Type} [Remainder β] : Remainder (α × β) where
  rest p := rest p.2
  more p := (p.1, more p.2)
  rest_more p := rest_more p.2

instance (c : Char) : Remainder (Led c) where
  rest p := c :: p.tail
  more p := ⟨p.tail ++ closing⟩
  rest_more _ := rfl

end Remainder

open Remainder

variable {α β γ δ : Type} [Remainder β] [Remainder γ] [Remainder δ] {cs ds : List Char} {x y : β}
  {c : Char}

@[simp] theorem throw_eq (err : Fault) : (throw err : Except Fault α) = .error err := rfl

@[simp] theorem pure_eq (a : α) : (pure a : Except Fault α) = .ok a := rfl

@[simp] theorem error_bind {γ : Type} (err : Fault) (f : α → Except Fault γ) :
    (Except.error err >>= f) = .error err := rfl

@[simp] theorem ok_bind {γ : Type} (a : α) (f : α → Except Fault γ) :
    (Except.ok a >>= f) = f a := rfl

/-! ## Outcomes -/

/-- The outcomes of reading a text as it is, and of reading it with the closing behind it. -/
inductive Grown (stuck : β → Prop) (cs : List Char) : Except Fault β → Except Fault β → Prop
  /-- The closing is left over. -/
  | left (x : β) : Grown stuck cs (.ok x) (.ok (more x))
  /-- A comment has taken it in. -/
  | swallowed (x : β) (hrest : rest x = []) (hcomment : '#' ∈ cs) : Grown stuck cs (.ok x) (.ok x)
  /-- There is an error, or not all of the closing is left over, or nothing comes of what is
  left. -/
  | refused (err : Fault) (r : Except Fault β) (h : ∀ y, r = .ok y → closing <:+ rest y → stuck y) :
    Grown stuck cs (.error err) r

namespace Grown

variable {r s : Except Fault β} {stuck : β → Prop}

/-- An error on both sides. -/
theorem error (err err' : Fault) : Grown stuck cs (.error err) (.error err') :=
  .refused err _ fun _ h => nomatch h

/-- Comments are still there in a longer text. -/
theorem mono (h : Grown stuck cs r s) (hsub : cs ⊆ ds) : Grown stuck ds r s := by
  cases h with
  | left x => exact .left x
  | swallowed x hrest hcomment => exact .swallowed x hrest (hsub hcomment)
  | refused err s h => exact .refused err s h

/-- Where there is no result for the text as it is. -/
theorem of_ne_ok (hr : ∀ y, r ≠ .ok y) (h : ∀ y, s = .ok y → closing <:+ rest y → stuck y) :
    Grown stuck cs r s := by
  cases r with
  | error err => exact .refused err s h
  | ok y => exact absurd rfl (hr y)

/-- Being stuck may be weakened. -/
theorem weaken {stuck' : β → Prop} (h : Grown stuck cs r s) (hstuck : ∀ y, stuck y → stuck' y) :
    Grown stuck' cs r s := by
  cases h with
  | left x => exact .left x
  | swallowed x hrest hcomment => exact .swallowed x hrest hcomment
  | refused err s h => exact .refused err s fun y hy hclosing => hstuck y (h y hy hclosing)

/-- Whoever leaves less than the closing has gone on into it. -/
theorem of_suffix (hr : ∀ y, r ≠ .ok y) (h : ∀ y, s = .ok y → rest y <:+ ds)
    (hds : ¬ closing <:+ ds) : Grown stuck cs r s :=
  of_ne_ok hr fun y hy hsuffix => absurd (hsuffix.trans (h y hy)) hds

end Grown

/-! ## Readers -/

/-- A reader that leaves an end of the text, and reads the same with the closing behind it.  What it
reads beyond the end of a text that it has refused may be `stuck`. -/
structure Tame (f : β → Except Fault γ) (stuck : γ → Prop := fun _ => False) : Prop where
  suffix : ∀ {x y}, f x = .ok y → rest y <:+ rest x
  grown : ∀ x, Grown stuck (rest x) (f x) (f (more x))

namespace Tame

variable {stuck : γ → Prop}

/-- A reader that always fails. -/
theorem error (err : Fault) : Tame (fun _ : β => (.error err : Except Fault γ)) stuck where
  suffix h := nomatch h
  grown _ := Grown.error err err

/-- What counts as being stuck may be widened. -/
theorem mono {f : β → Except Fault γ} {stuck' : γ → Prop} (hf : Tame f stuck)
    (h : ∀ y, stuck y → stuck' y) : Tame f stuck' :=
  ⟨hf.suffix, fun x => (hf.grown x).weaken h⟩

/-- Readers that do the same. -/
theorem congr {f g : β → Except Fault γ} (hf : Tame f stuck) (h : ∀ x, g x = f x) :
    Tame g stuck := by
  rwa [show g = f from funext h]

/-- A result may be given another form. -/
theorem map {f : β → γ} (hrest : ∀ x, rest (f x) = rest x) (hmore : ∀ x, f (more x) = more (f x)) :
    Tame (fun x => .ok (f x)) stuck where
  suffix h := by
    obtain rfl := Except.ok.inj h
    rw [hrest]
  grown x := by
    rw [hmore]
    exact .left _

/-- Nothing is read. -/
theorem same {stuck : β → Prop} : Tame (fun x : β => (.ok x : Except Fault β)) stuck :=
  map (fun _ => rfl) fun _ => rfl

/-- What goes along with the rest is not read. -/
theorem pair {stuck : α × β → Prop} (a : α) :
    Tame (fun x : β => (.ok (a, x) : Except Fault (α × β))) stuck :=
  map (fun _ => rfl) fun _ => rfl

/-- **Reading one thing after the other**, if the second reader makes nothing of what the first one
is stuck with. -/
theorem bind_of_stuck {f : β → Except Fault γ} {g : γ → Except Fault δ} {stuck' : δ → Prop}
    (hf : Tame f stuck) (hg : Tame g stuck')
    (hstuck : ∀ y z, stuck y → g y = .ok z → closing <:+ rest z → stuck' z) :
    Tame (fun x => f x >>= g) stuck' where
  suffix {x z} h := by
    obtain ⟨y, hy, hz⟩ := Outcome.bind_eq_ok.1 h
    exact (hg.suffix hz).trans (hf.suffix hy)
  grown x := by
    have hgrown := hf.grown x
    have hsuffix := fun y => hf.suffix (x := x) (y := y)
    generalize f x = r at hgrown hsuffix
    generalize f (more x) = s at hgrown
    cases hgrown with
    | left y => exact (hg.grown y).mono (hsuffix y rfl).subset
    | swallowed y hrest hcomment =>
      -- nothing is left for the second reader, with or without the closing
      show Grown _ _ (g y) (g y)
      cases hy : g y with
      | error err => exact .error err err
      | ok z =>
        have hz := hg.suffix hy
        rw [hrest, List.suffix_nil] at hz
        exact .swallowed z hz hcomment
    | refused err s hs =>
      refine .refused err _ fun z hz hclosing => ?_
      cases s with
      | error err' => cases hz
      | ok y => exact hstuck y z (hs y rfl (hclosing.trans (hg.suffix hz))) hz hclosing

/-- **One tame reader behind another is tame.** -/
theorem bind {f : β → Except Fault γ} {g : γ → Except Fault δ} {stuck : δ → Prop} (hf : Tame f)
    (hg : Tame g stuck) : Tame (fun x => f x >>= g) stuck :=
  bind_of_stuck hf hg fun _ _ h => h.elim

/-- A reader of pairs, by their first part. -/
theorem of_pair {f : α × β → Except Fault γ} (h : ∀ a, Tame (fun x => f (a, x)) stuck) :
    Tame f stuck :=
  ⟨fun {p _} hy => (h p.1).suffix hy, fun p => (h p.1).grown p.2⟩

/-- Reading on with the first part of a pair at hand. -/
theorem bind_pair {f : β → Except Fault (α × γ)} {g : α → γ → Except Fault δ} {stuck : δ → Prop}
    (hf : Tame f) (hg : ∀ a, Tame (g a) stuck) : Tame (fun x => f x >>= fun y => g y.1 y.2) stuck :=
  hf.bind (of_pair hg)

/-- Reading on with the outcome of something that does not read. -/
theorem after {f : α → β → Except Fault γ} (r : Except Fault α) (h : ∀ a, Tame (f a) stuck) :
    Tame (fun x => r >>= fun a => f a x) stuck := by
  cases r with
  | error err => exact error err
  | ok a => exact h a

/-- An outcome with the text as it is. -/
theorem outcome {stuck : α × β → Prop} (r : Except Fault α) :
    Tame (fun x : β => r >>= fun a => .ok (a, x)) stuck :=
  after r pair

/-- Reading in one of two ways, between which the closing does not decide. -/
theorem ite {f g : β → Except Fault γ} {q : β → Prop} [DecidablePred q] (hq : ∀ x, q (more x) ↔ q x)
    (hf : Tame f stuck) (hg : Tame g stuck) : Tame (fun x => if q x then f x else g x) stuck where
  suffix {x y} h := by
    split at h
    · exact hf.suffix h
    · exact hg.suffix h
  grown x := by
    simp only [hq]
    split
    · exact hf.grown x
    · exact hg.grown x

/-- Reading on behind what may be found at the front, or reading otherwise. -/
theorem option {q : β → Option γ} {f : γ → Except Fault δ} {g : β → Except Fault δ}
    {stuck : δ → Prop} (hq : ∀ x, q (more x) = (q x).map more)
    (hsuffix : ∀ {x y}, q x = some y → rest y <:+ rest x) (hf : Tame f stuck) (hg : Tame g stuck) :
    Tame (fun x => (q x).elim (g x) f) stuck where
  suffix {x y} h := by
    cases hx : q x with
    | none => exact hg.suffix (by simpa [hx] using h)
    | some z => exact (hf.suffix (by simpa [hx] using h)).trans (hsuffix hx)
  grown x := by
    rw [hq]
    cases hx : q x with
    | none => exact hg.grown x
    | some z => exact (hf.grown z).mono (hsuffix hx).subset

/-- The first character is passed over. -/
theorem tail {f : List Char → Except Fault γ} (hf : Tame f stuck) :
    Tame (fun p : Led c => f p.tail) stuck where
  suffix h := (hf.suffix h).trans (List.suffix_cons _ _)
  grown p := (hf.grown p.tail).mono (List.subset_cons_self _ _)

/-- The first character is there for the reader. -/
theorem led {f : List Char → Except Fault γ} (hf : Tame f stuck) :
    Tame (fun p : Led c => f (c :: p.tail)) stuck where
  suffix h := hf.suffix h
  grown p := hf.grown (c :: p.tail)

/-- A reader of texts, by their first character. -/
theorem of_led {f : List Char → Except Fault γ} (hnil : Grown stuck [] (f []) (f closing))
    (hsuffix : ∀ y, f [] = .ok y → rest y = [])
    (h : ∀ c, Tame (fun p : Led c => f (c :: p.tail)) stuck) : Tame f stuck where
  suffix {cs y} hy := by
    cases cs with
    | nil => rw [hsuffix y hy]; exact List.nil_suffix
    | cons c cs => exact (h c).suffix (x := ⟨cs⟩) hy
  grown cs := by
    cases cs with
    | nil => exact hnil
    | cons c cs => exact (h c).grown ⟨cs⟩

/-- A reader that does something else where a given character stands first. -/
theorem of_char {f g : List Char → Except Fault γ} (c : Char) (hc : c ≠ ')')
    (hother : ∀ cs, (∀ ds, cs ≠ c :: ds) → f cs = g cs)
    (hf : Tame (fun p : Led c => f (c :: p.tail)) stuck) (hg : Tame g stuck) : Tame f stuck := by
  have hnil : f [] = g [] := hother [] (by simp)
  have hclosing : f closing = g closing := hother closing (by simp [closing, hc.symm])
  refine of_led ?_ (fun y hy => List.suffix_nil.1 (hg.suffix (hnil ▸ hy))) fun d => ?_
  · rw [hnil, hclosing]
    exact hg.grown []
  by_cases hd : d = c
  · subst hd
    exact hf
  · exact hg.led.congr fun p => hother (d :: p.tail) (by simp [hd])

/-- A reader that refuses an empty text, and takes the parenthesis behind one. -/
theorem of_led_error {f : List Char → Except Fault γ} (hnil : ∀ y, f [] ≠ .ok y)
    (hclosing : ∀ y, f closing = .ok y → rest y <:+ ['$'])
    (h : ∀ c, Tame (fun p : Led c => f (c :: p.tail)) stuck) : Tame f stuck :=
  of_led (.of_suffix hnil hclosing (by decide)) (fun y hy => absurd hy (hnil y)) h

end Tame

/-! ## Blanks and comments -/

/-- Blanks are skipped from the front. -/
theorem skipBlanks_suffix (comment : Bool) (cs : List Char) : skipBlanks comment cs <:+ cs := by
  fun_induction skipBlanks comment cs with
  | case1 => exact List.suffix_rfl
  | case2 c cs ih => exact ih.trans (List.suffix_cons c cs)
  | case3 c cs _ ih => exact ih.trans (List.suffix_cons c cs)
  | case4 cs _ ih => exact ih.trans (List.suffix_cons _ cs)
  | case5 => exact List.suffix_rfl

/-- What is skipped goes on into the closing only inside of a comment. -/
theorem skipBlanks_closing (comment : Bool) (cs : List Char) :
    skipBlanks comment (cs ++ closing) = skipBlanks comment cs ++ closing ∨
      skipBlanks comment cs = [] ∧ skipBlanks comment (cs ++ closing) = [] ∧
      (comment = true ∨ '#' ∈ cs) := by
  fun_induction skipBlanks comment cs with
  | case1 comment => cases comment <;> simp [closing, skipBlanks, Text.isBlank]
  | case2 c cs ih =>
    simp only [List.cons_append, skipBlanks]
    exact ih.imp_right fun h => ⟨h.1, h.2.1, by simp⟩
  | case3 c cs hc ih =>
    simp only [List.cons_append, skipBlanks, if_pos hc]
    exact ih.imp_right fun h => ⟨h.1, h.2.1, by simpa using h.2.2.imp_right (Or.inr (a := '#' = c))⟩
  | case4 cs hc ih =>
    simp only [List.cons_append, skipBlanks, if_neg hc, if_true]
    exact ih.imp_right fun h => ⟨h.1, h.2.1, by simp⟩
  | case5 c cs hc hh =>
    simp only [List.cons_append, skipBlanks, if_neg hc, if_neg hh, true_or]

/-- Skipping blanks and comments. -/
theorem tame_skip (flags : Flags) : Tame fun cs => .ok (flags.skip cs) where
  suffix {cs ds} h := by
    obtain rfl := Except.ok.inj h
    unfold Flags.skip
    split
    · exact skipBlanks_suffix false cs
    · exact List.suffix_rfl
  grown cs := by
    show Grown _ cs (.ok (flags.skip cs)) (.ok (flags.skip (cs ++ closing)))
    unfold Flags.skip
    split
    · rcases skipBlanks_closing false cs with h | ⟨h, h', hcomment⟩
      · rw [h]
        exact .left _
      · rw [h', ← h]
        exact .swallowed _ h (by simpa using hcomment)
    · exact .left _

@[simp] theorem Flags.skip_nil (flags : Flags) : flags.skip [] = [] := by
  unfold Flags.skip
  split <;> rfl

/-- A character that is neither a blank nor starts a comment is not skipped. -/
theorem Flags.skip_cons (flags : Flags) (hblank : Text.isBlank c = false) (hcomment : c ≠ '#')
    (cs : List Char) : flags.skip (c :: cs) = c :: cs := by
  simp [Flags.skip, skipBlanks, hblank, hcomment]

@[simp] theorem Flags.skip_paren (flags : Flags) (cs : List Char) :
    flags.skip (')' :: cs) = ')' :: cs :=
  flags.skip_cons rfl (by decide) cs

/-- What is left after skipping starts with something else. -/
theorem not_isBlank_of_skipBlanks {comment : Bool} (h : skipBlanks comment cs = c :: ds) :
    ¬ Text.isBlank c = true ∧ c ≠ '#' := by
  fun_induction skipBlanks comment cs with
  | case1 => cases h
  | case2 _ _ ih | case3 _ _ _ ih | case4 _ _ ih => exact ih h
  | case5 d cs hd hh =>
    obtain ⟨rfl, -⟩ := List.cons.inj h
    exact ⟨hd, hh⟩

/-- Whether a character is skipped does not depend on what stands behind it. -/
theorem Flags.skip_cons_of_skip {flags : Flags} (h : flags.skip cs = c :: ds) (es : List Char) :
    flags.skip (c :: es) = c :: es := by
  unfold Flags.skip at h ⊢
  split
  · next hspaced =>
    rw [if_pos hspaced] at h
    obtain ⟨hblank, hcomment⟩ := not_isBlank_of_skipBlanks h
    rw [skipBlanks, if_neg hblank, if_neg hcomment]
  · rfl

/-- What has been skipped once is not skipped again. -/
theorem Flags.skip_skip (flags : Flags) (cs : List Char) :
    flags.skip (flags.skip cs) = flags.skip cs := by
  cases h : flags.skip cs with
  | nil => exact skip_nil flags
  | cons c ds => exact skip_cons_of_skip h ds

theorem Flags.length_of_skip {flags : Flags} (h : flags.skip cs = c :: ds) :
    ds.length < cs.length := by
  have hsuffix : flags.skip cs <:+ cs := (tame_skip flags).suffix rfl
  rw [h] at hsuffix
  exact hsuffix.length_le

/-- A reader that skips blanks first, by the first character that has a meaning. -/
theorem Tame.of_skip {f : List Char → Except Fault γ} {stuck : γ → Prop} (flags : Flags)
    (hskip : ∀ cs, f cs = f (flags.skip cs)) (hnil : Grown stuck [] (f []) (f closing))
    (hsuffix : ∀ y, f [] = .ok y → rest y = []) (h : ∀ c, (∀ cs, flags.skip (c :: cs) = c :: cs) →
      Tame (fun p : Led c => f (c :: p.tail)) stuck) : Tame f stuck := by
  have hskipped : ∀ {cs}, flags.skip cs = cs →
      Grown stuck cs (f cs) (f (more cs)) ∧ ∀ y, f cs = .ok y → rest y <:+ cs := by
    intro cs hcs
    cases cs with
    | nil => exact ⟨hnil, fun y hy => by rw [hsuffix y hy]⟩
    | cons c cs =>
      have hc := h c (Flags.skip_cons_of_skip hcs)
      exact ⟨hc.grown ⟨cs⟩, fun y hy => hc.suffix (x := ⟨cs⟩) hy⟩
  refine ⟨fun {cs y} hy => ?_, fun cs => ?_⟩
  · rw [hskip] at hy
    exact ((hskipped (flags.skip_skip cs)).2 y hy).trans ((tame_skip flags).suffix rfl)
  · have hgrown := (tame_skip flags).grown cs
    have hsub := ((tame_skip flags).suffix (x := cs) rfl).subset
    have hfirst := hskipped (flags.skip_skip cs)
    rw [hskip cs, hskip (more cs)]
    generalize flags.skip cs = ds at hgrown hsub hfirst
    generalize flags.skip (more cs) = es at hgrown
    cases hgrown with
    | left => exact hfirst.1.mono hsub
    | swallowed _ hrest hcomment =>
      obtain rfl : ds = [] := hrest
      cases hy : f [] with
      | error err => exact .error err err
      | ok y => exact .swallowed y (hsuffix y hy) hcomment

/-- The same for a reader that refuses an empty text, and takes the parenthesis behind one. -/
theorem Tame.of_skip_error {f : List Char → Except Fault γ} {stuck : γ → Prop} (flags : Flags)
    (hskip : ∀ cs, f cs = f (flags.skip cs)) (hnil : ∀ y, f [] ≠ .ok y)
    (hclosing : ∀ y, f closing = .ok y → rest y <:+ ['$'])
    (h : ∀ c, (∀ cs, flags.skip (c :: cs) = c :: cs) →
      Tame (fun p : Led c => f (c :: p.tail)) stuck) : Tame f stuck :=
  of_skip flags hskip (.of_suffix hnil hclosing (by decide)) (fun y hy => absurd hy (hnil y)) h

/-- Blanks may be skipped first. -/
theorem Tame.skip {f : List Char → Except Fault γ} {stuck : γ → Prop} (hf : Tame f stuck)
    (flags : Flags) : Tame (fun cs => f (flags.skip cs)) stuck :=
  (tame_skip flags).bind hf

/-! ## Runs of characters -/

variable {p : Char → Bool} {spaced comment : Bool}

/-- Characters are taken from the front. -/
theorem takeSpaced_suffix (cs : List Char) : (takeSpaced spaced p comment cs).2 <:+ cs := by
  fun_induction takeSpaced spaced p comment cs with
  | case1 => exact List.suffix_rfl
  | case2 c cs ih | case3 c cs _ ih | case4 c cs _ _ ih => exact ih.trans (List.suffix_cons c cs)
  | case5 c cs _ _ _ taken rest h ih => rw [h] at ih; exact ih.trans (List.suffix_cons c cs)
  | case6 => exact List.suffix_rfl

/-- A run that has come to its end is not longer in a longer text. -/
theorem takeSpaced_append (h : (takeSpaced spaced p comment cs).2 ≠ []) (ds : List Char) :
    takeSpaced spaced p comment (cs ++ ds)
      = ((takeSpaced spaced p comment cs).1, (takeSpaced spaced p comment cs).2 ++ ds) := by
  fun_induction takeSpaced spaced p comment cs with
  | case1 => exact absurd rfl h
  | case2 c cs ih => simp only [List.cons_append, takeSpaced, ih h]
  | case3 c cs hc ih => simp only [List.cons_append, takeSpaced, if_pos hc, ih h]
  | case4 c cs hc hh ih => simp only [List.cons_append, takeSpaced, if_neg hc, if_pos hh, ih h]
  | case5 c cs hc hh hp taken rest heq ih =>
    rw [heq] at ih
    simp only [List.cons_append, takeSpaced, if_neg hc, if_neg hh, if_pos hp, ih h]
  | case6 c cs hc hh hp => simp only [List.cons_append, takeSpaced, if_neg hc, if_neg hh, if_neg hp]

/-- A run that reaches the end of a text goes on behind it. -/
theorem takeSpaced_beyond (h : (takeSpaced spaced p comment cs).2 = []) (ds : List Char) :
    (takeSpaced spaced p comment (cs ++ ds)).2 <:+ ds := by
  fun_induction takeSpaced spaced p comment cs with
  | case1 => exact takeSpaced_suffix ds
  | case2 c cs ih => simpa only [List.cons_append, takeSpaced] using ih h
  | case3 c cs hc ih => simpa only [List.cons_append, takeSpaced, if_pos hc] using ih h
  | case4 c cs hc hh ih =>
    simpa only [List.cons_append, takeSpaced, if_neg hc, if_pos hh] using ih h
  | case5 c cs hc hh hp taken rest heq ih =>
    rw [heq] at ih
    simpa only [List.cons_append, takeSpaced, if_neg hc, if_neg hh, if_pos hp] using ih h
  | case6 => cases h

/-- A run to the end of a text stops at the closing, or a comment has taken that in. -/
theorem takeSpaced_closing (hp : p ')' = false) (h : (takeSpaced spaced p comment cs).2 = []) :
    takeSpaced spaced p comment (cs ++ closing) = ((takeSpaced spaced p comment cs).1, closing) ∨
      takeSpaced spaced p comment (cs ++ closing) = takeSpaced spaced p comment cs ∧
        (comment = true ∨ '#' ∈ cs) := by
  fun_induction takeSpaced spaced p comment cs with
  | case1 comment => cases comment <;> simp [closing, takeSpaced, Text.isBlank, hp]
  | case2 c cs ih =>
    simp only [List.cons_append, takeSpaced]
    exact (ih h).imp_right fun h' => ⟨h'.1, by simp⟩
  | case3 c cs hc ih =>
    simp only [List.cons_append, takeSpaced, if_pos hc]
    exact (ih h).imp_right fun h' => ⟨h'.1, by simpa using h'.2.imp_right (Or.inr (a := '#' = c))⟩
  | case4 c cs hc hh ih =>
    simp only [List.cons_append, takeSpaced, if_neg hc, if_pos hh]
    simp only [Bool.and_eq_true, beq_iff_eq] at hh
    exact (ih h).imp_right fun h' => ⟨h'.1, by simp [hh.2]⟩
  | case5 c cs hc hh hp taken rest heq ih =>
    rw [heq] at ih
    simp only [List.cons_append, takeSpaced, if_neg hc, if_neg hh, if_pos hp]
    rcases ih h with h' | ⟨h', hcomment⟩
    · exact .inl (by rw [h'])
    · exact .inr ⟨by rw [h'], by simpa using hcomment.imp_right (Or.inr (a := '#' = c))⟩
  | case6 => cases h

/-- A search that reaches the end of a text finds nothing in the closing. -/
theorem dropWhile_closing (hp : closing.dropWhile p = []) (h : cs.dropWhile p = []) :
    (cs ++ closing).dropWhile p = [] := by
  rw [List.dropWhile_append, h]
  exact hp

/-- A search that ends before it finds the same. -/
theorem span_closing (h : cs.dropWhile p = c :: ds) :
    (cs ++ closing).takeWhile p = cs.takeWhile p ∧
    (cs ++ closing).dropWhile p = c :: ds ++ closing := by
  induction cs with
  | nil => cases h
  | cons d cs ih =>
    cases hd : p d with
    | true =>
      simp only [List.cons_append, List.takeWhile_cons_of_pos hd,
        List.dropWhile_cons_of_pos hd] at h ⊢
      exact ⟨by rw [(ih h).1], (ih h).2⟩
    | false =>
      have hd : ¬ p d = true := by simp [hd]
      simp only [List.cons_append, List.takeWhile_cons_of_neg hd,
        List.dropWhile_cons_of_neg hd] at h ⊢
      exact ⟨trivial, by rw [← List.cons_append, h]; rfl⟩

/-- A run of characters that a parenthesis is not among. -/
theorem tame_take (flags : Flags) (hp : p ')' = false) : Tame fun cs => .ok (flags.take p cs) where
  suffix {cs y} h := by
    obtain rfl := Except.ok.inj h
    exact takeSpaced_suffix cs
  grown cs := by
    show Grown _ cs (.ok (flags.take p cs)) (.ok (flags.take p (cs ++ closing)))
    rw [Flags.take, Flags.take]
    by_cases h : (takeSpaced flags.spaced p false cs).2 = []
    · rcases takeSpaced_closing hp h with h' | ⟨h', hcomment⟩
      · have hleft : (takeSpaced flags.spaced p false cs).2 ++ closing = closing := by
          rw [h, List.nil_append]
        rw [h', ← hleft]
        exact .left (takeSpaced flags.spaced p false cs)
      · rw [h']
        exact .swallowed _ h (by simpa using hcomment)
    · rw [takeSpaced_append h]
      exact .left (takeSpaced flags.spaced p false cs)

end DataTree.Pattern
