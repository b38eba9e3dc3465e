import DataTree.Scalar.Range
import Mathlib.Data.List.Chain
import Mathlib.Data.List.Forall2
import Mathlib.Data.Rat.Defs
import Mathlib.Algebra.Order.Field.Rat

/-!
# DataTree.Proofs.Range.Written

Range expressions in writing, and how reading takes them apart.

An interval is written as its bounds with two points between them, or as a single number if
they are equal, and a range as its intervals with bars between them; around points and bars
there may be blanks (`Writes`).  Reading cuts at the bars, trims, and cuts at the first two
points.  That finds the texts of the bounds as long as these contain no bar and no blank, and
no point that another point stands or could come to stand behind (`Numeric`): the text of a
decimal has a point of its own, but with a digit behind it.

For such a type reading gives the intervals back, by value (`readsBack`).
-/

namespace DataTree

/-! ## Cutting -/

namespace Text

variable {as bs cs ds : List Char}

/-- A text of blanks. -/
def IsBlanks (cs : List Char) : Prop := ∀ c ∈ cs, isBlank c = true

theorem isBlanks_nil : IsBlanks [] := fun _ hc => nomatch hc

theorem IsBlanks.not_mem {c : Char} (h : IsBlanks cs) (hc : isBlank c = false) : c ∉ cs :=
  fun hmem => by
  simpa [hc] using h c hmem

/-- A text with no blank at either end. -/
structure Tight (cs : List Char) : Prop where
  ne_nil : cs ≠ []
  head : ∀ c ∈ cs.head?, isBlank c = false
  last : ∀ c ∈ cs.getLast?, isBlank c = false

theorem tight_of_forall (hne : cs ≠ []) (h : ∀ c ∈ cs, isBlank c = false) : Tight cs :=
  ⟨hne, fun _ hc => h _ (List.mem_of_mem_head? hc), fun _ hc => h _ (List.mem_of_mem_getLast? hc)⟩

theorem Tight.append (hcs : Tight cs) (mid : List Char) (hds : Tight ds) :
    Tight (cs ++ (mid ++ ds)) where
  ne_nil := by simp [hcs.ne_nil]
  head c hc := hcs.head c (by simpa [List.head?_append_of_ne_nil _ hcs.ne_nil] using hc)
  last c hc := by
    rw [← List.append_assoc, List.getLast?_append_of_ne_nil _ hds.ne_nil] at hc
    exact hds.last c hc

private theorem dropWhile_blanks (hbs : IsBlanks bs) (hne : cs ≠ [])
    (h : ∀ c ∈ cs.head?, isBlank c = false) : (bs ++ (cs ++ as)).dropWhile isBlank = cs ++ as := by
  obtain ⟨c, cs, rfl⟩ := List.exists_cons_of_ne_nil hne
  rw [List.dropWhile_append_of_pos hbs, List.cons_append,
    List.dropWhile_cons_of_neg (by simp [h c rfl])]

/-- Trimming takes the blanks at the ends and nothing else. -/
theorem Tight.trim_eq (h : Tight cs) (hbs : IsBlanks bs) (has : IsBlanks as) :
    trim (bs ++ (cs ++ as)) = cs := by
  have hhead : ∀ c ∈ cs.reverse.head?, isBlank c = false := by simpa using h.last
  have has' : IsBlanks as.reverse := by simpa [IsBlanks] using has
  have hback : (as.reverse ++ (cs.reverse ++ [])).dropWhile isBlank = cs.reverse ++ [] :=
    dropWhile_blanks has' (by simpa using h.ne_nil) hhead
  rw [List.append_nil] at hback
  rw [trim, dropWhile_blanks hbs h.ne_nil h.head, List.reverse_append, hback, List.reverse_reverse]

/-- Every point has something else than a point behind it, and something at all. -/
def Apart (cs : List Char) : Prop := (cs ++ ['.']).IsChain fun a b => a = '.' → b ≠ '.'

theorem apart_of_not_mem (h : '.' ∉ cs) : Apart cs := by
  induction cs with
  | nil => exact List.isChain_singleton _
  | cons c cs ih =>
    rw [List.mem_cons, not_or] at h
    exact List.isChain_cons.2 ⟨fun _ _ hc => absurd hc.symm h.1, ih h.2⟩

theorem apart_point (hne : cs ≠ []) (h : '.' ∉ cs) : Apart ('.' :: cs) := by
  obtain ⟨c, cs, rfl⟩ := List.exists_cons_of_ne_nil hne
  have hc : c ≠ '.' := fun hpoint => h (by simp [hpoint])
  exact List.isChain_cons_cons.2 ⟨fun _ => hc, apart_of_not_mem h⟩

theorem Apart.append (hcs : Apart cs) (hds : Apart ds) : Apart (cs ++ ds) := by
  induction cs with
  | nil => exact hds
  | cons c cs ih =>
    obtain ⟨hc, hcs⟩ := List.isChain_cons.1 hcs
    refine List.isChain_cons.2 ⟨fun d hd => ?_, ih hcs⟩
    cases cs with
    | nil => exact fun hpoint => absurd rfl (hc '.' rfl hpoint)
    | cons e cs => exact hc d hd

theorem isPrefixOf_points (c : Char) (cs : List Char) :
    ['.', '.'].isPrefixOf (c :: cs) = (c == '.' && cs.head? == some '.') := by
  cases cs <;> simp [List.isPrefixOf, Bool.beq_comm]

/-- The first two points that stand together are the ones behind such a text. -/
theorem Apart.cutAt?_append (h : Apart cs) (rest : List Char) :
    cutAt? ['.', '.'] (cs ++ '.' :: '.' :: rest) = some (cs, rest) := by
  induction cs with
  | nil => rfl
  | cons c cs ih =>
    obtain ⟨hc, hcs⟩ := List.isChain_cons.1 h
    have hno : (c == '.' && (cs ++ '.' :: '.' :: rest).head? == some '.') = false := by
      cases cs <;> simp_all
    rw [List.cons_append, cutAt?, isPrefixOf_points, hno]
    simp [ih hcs]

theorem Apart.cutAt?_eq_none (h : Apart cs) : cutAt? ['.', '.'] cs = none := by
  induction cs with
  | nil => rfl
  | cons c cs ih =>
    obtain ⟨hc, hcs⟩ := List.isChain_cons.1 h
    have hno : (c == '.' && cs.head? == some '.') = false := by
      cases cs <;> simp_all
    rw [cutAt?, isPrefixOf_points, hno]
    simp [ih hcs]

/-- Texts without separators are the pieces of what they join to. -/
theorem pieces_join {sep : Char} {ls : List (List Char)} (hne : ls ≠ []) (h : ∀ cs ∈ ls, sep ∉ cs) :
    pieces (· == sep) ([sep].intercalate ls) = ls := by
  have hpiece : ∀ cs ∈ ls, pieces (· == sep) cs = [cs] := fun cs hcs =>
    pieces_eq_self fun c hc => by
      simpa using fun heq : c = sep => h cs hcs (heq ▸ hc)
  clear h
  induction ls with
  | nil => exact absurd rfl hne
  | cons cs ls ih =>
    have hcs := hpiece cs List.mem_cons_self
    cases ls with
    | nil => simpa [List.intercalate] using hcs
    | cons ds ls =>
      rw [List.intercalate_cons_cons, List.append_assoc, List.singleton_append,
        pieces_append_cons (by simp), hcs, ih (List.cons_ne_nil _ _) fun es hes =>
          hpiece es (List.mem_cons_of_mem _ hes)]
      rfl

end Text

/-! ## Expressions -/

namespace Range

open Text

variable {α : Type} [Scalar α]

/-- The text of a value. -/
def chars (a : α) : List Char := (Scalar.toText a).toList

section

variable (number : α → ℚ)

/-- An interval in writing: both bounds, or one number that is equal to both. -/
inductive WritesPart (low high : α) : List Char → Prop
  | interval {before left right after : List Char} (hbefore : IsBlanks before)
      (hleft : IsBlanks left) (hright : IsBlanks right) (hafter : IsBlanks after) :
      WritesPart low high
        (before ++ ((chars low ++ (left ++ '.' :: '.' :: right ++ chars high)) ++ after))
  | single {x : α} {before after : List Char} (hlow : number x = number low)
      (hhigh : number x = number high) (hbefore : IsBlanks before) (hafter : IsBlanks after) :
      WritesPart low high (before ++ (chars x ++ after))

/-- A range expression in writing: its intervals with bars between them. -/
def Writes (parts : List (α × α)) (expr : String) : Prop :=
  ∃ written, List.Forall₂ (fun p cs => WritesPart number p.1 p.2 cs) parts written ∧
    expr.toList = ['|'].intercalate written

/-- Range expressions of a type are read back: reading one succeeds exactly if no interval is
inverted and says which one otherwise, and the range that it gives contains the values in the
intervals.  In particular the source of a range between two values reads as that range. -/
structure ReadsBack : Prop where
  succeeds_iff : ∀ {parts : List (α × α)} {expr : String}, parts ≠ [] → Writes number parts expr →
    ((∃ r : Range α, read expr = .ok r) ↔ ∀ p ∈ parts, number p.1 ≤ number p.2)
  contains_iff : ∀ {parts : List (α × α)} {expr : String} {r : Range α}, parts ≠ [] →
    Writes number parts expr → read expr = .ok r → ∀ v, r.contains v = true ↔
      ∃ p ∈ parts, number p.1 ≤ number v ∧ number v ≤ number p.2
  refuses : ∀ {parts : List (α × α)} {expr : String} {err : Error},
    parts ≠ [] → Writes number parts expr → read (α := α) expr = .error err → ∃ low high : α,
      (∃ p ∈ parts, number low = number p.1 ∧ number high = number p.2) ∧ number high < number low ∧
      err = .invalidRestriction ("range " ++ expr)
        (Scalar.toText low ++ " is greater than " ++ Scalar.toText high)
  between : ∀ {low high : α}, number low ≤ number high →
    ∃ r : Range α, read (between low high).source = .ok r ∧
      ∀ v, r.contains v = (Range.between low high).contains v

/-- A type whose values are numbers, ordered and written as such: what is written is read as the
same number, and can be told from the blanks, bars and points around it. -/
structure Numeric : Prop where
  isNumeric : Scalar.isNumeric α = true
  le_iff : ∀ a b : α, Scalar.le a b = true ↔ number a ≤ number b
  exists_read? : ∀ a : α, ∃ x : α, Scalar.read? (chars a) = some x ∧ number x = number a
  ne_nil : ∀ a : α, chars a ≠ []
  not_blank : ∀ a : α, ∀ c ∈ chars a, isBlank c = false
  no_bar : ∀ a : α, '|' ∉ chars a
  apart : ∀ a : α, Apart (chars a)

end

variable {number : α → ℚ} {low high : α} {cs : List Char} {parts : List (α × α)} {expr : String}

namespace Numeric

variable (hn : Numeric number)
include hn

theorem tight (a : α) : Tight (chars a) := tight_of_forall (hn.ne_nil a) (hn.not_blank a)

/-- The bounds of an interval are found where they have been written. -/
theorem bounds_of_writesPart (h : WritesPart number low high cs) :
    ∃ a b, number a = number low ∧ number b = number high ∧ bounds cs = (chars a, chars b) := by
  cases h with
  | single hlow hhigh hbefore hafter =>
    rename_i x before after
    refine ⟨x, x, hlow, hhigh, ?_⟩
    simp only [bounds, (hn.tight x).trim_eq hbefore hafter, (hn.apart x).cutAt?_eq_none]
  | interval hbefore hleft hright hafter =>
    rename_i before left right after
    refine ⟨low, high, rfl, rfl, ?_⟩
    have htight := (hn.tight low).append (left ++ '.' :: '.' :: right) (hn.tight high)
    have hapart : Apart (chars low ++ left) :=
      (hn.apart low).append (apart_of_not_mem (hleft.not_mem rfl))
    have hcut : cutAt? ['.', '.'] (chars low ++ (left ++ '.' :: '.' :: right ++ chars high))
        = some (chars low ++ left, right ++ chars high) := by
      have happend := hapart.cutAt?_append (right ++ chars high)
      simpa only [List.append_assoc, List.cons_append] using happend
    have hlow : trim (chars low ++ left) = chars low := (hn.tight low).trim_eq isBlanks_nil hleft
    have hhigh : trim (right ++ chars high) = chars high := by
      simpa using (hn.tight high).trim_eq hright isBlanks_nil
    simp only [bounds, htight.trim_eq hbefore hafter, hcut, hlow, hhigh]

theorem readPart_of_writesPart (h : WritesPart number low high cs) :
    ∃ a b, number a = number low ∧ number b = number high ∧
      readPart cs = if number low ≤ number high then .ok (a, b) else .error (.inverted a b) := by
  obtain ⟨a, b, ha, hb, hbounds⟩ := hn.bounds_of_writesPart h
  obtain ⟨x, hx, hxa⟩ := hn.exists_read? a
  obtain ⟨y, hy, hyb⟩ := hn.exists_read? b
  have hle : Scalar.le x y = true ↔ number low ≤ number high := by rw [hn.le_iff, hxa, hyb, ha, hb]
  refine ⟨x, y, hxa.trans ha, hyb.trans hb, ?_⟩
  simp [readPart, hbounds, hx, hy, hle]

/-- There is no bar in an interval. -/
theorem bar_not_mem (h : WritesPart number low high cs) : '|' ∉ cs := by
  cases h with
  | single _ _ hbefore hafter =>
    simp [hbefore.not_mem (c := '|') rfl, hafter.not_mem (c := '|') rfl, hn.no_bar]
  | interval hbefore hleft hright hafter =>
    simp [hbefore.not_mem (c := '|') rfl, hafter.not_mem (c := '|') rfl,
      hleft.not_mem (c := '|') rfl, hright.not_mem (c := '|') rfl, hn.no_bar]

theorem bar_not_mem_of_written {written : List (List Char)}
    (h : List.Forall₂ (fun p cs => WritesPart number p.1 p.2 cs) parts written) :
    ∀ cs ∈ written, '|' ∉ cs := by
  induction h with
  | nil => exact fun _ hcs => nomatch hcs
  | cons hp _ ih => exact List.forall_mem_cons.2 ⟨hn.bar_not_mem hp, ih⟩

/-- What is read of intervals: these, by value, or the first one that is inverted. -/
theorem readParts_of_written {written : List (List Char)}
    (h : List.Forall₂ (fun p cs => WritesPart number p.1 p.2 cs) parts written) :
    (∃ made, readParts written = .ok made ∧ (∀ p ∈ parts, number p.1 ≤ number p.2) ∧
      List.Forall₂ (fun p q => number q.1 = number p.1 ∧ number q.2 = number p.2) parts made) ∨
    ∃ a b, readParts written = .error (.inverted a b) ∧
      ∃ p ∈ parts, number a = number p.1 ∧ number b = number p.2 ∧ number p.2 < number p.1 := by
  induction h with
  | nil => exact .inl ⟨[], rfl, by simp, .nil⟩
  | @cons p cs parts written hp _ ih =>
    obtain ⟨a, b, ha, hb, hpart⟩ := hn.readPart_of_writesPart hp
    by_cases hle : number p.1 ≤ number p.2
    · rw [if_pos hle] at hpart
      rcases ih with ⟨made, hmade, hall, hsame⟩ | ⟨x, y, herr, q, hq, hinverted⟩
      · refine .inl ⟨(a, b) :: made, ?_, List.forall_mem_cons.2 ⟨hle, hall⟩, .cons ⟨ha, hb⟩ hsame⟩
        simp only [readParts, hpart, hmade]
        rfl
      · refine .inr ⟨x, y, ?_, q, List.mem_cons_of_mem _ hq, hinverted⟩
        simp only [readParts, hpart, herr]
        rfl
    · rw [if_neg hle] at hpart
      refine .inr ⟨a, b, ?_, p, List.mem_cons_self, ha, hb, not_le.1 hle⟩
      simp only [readParts, hpart]
      rfl

end Numeric

/-- Intervals with the same bounds contain the same values. -/
theorem contains_iff_of_forall₂ (hn : Numeric number) {r : Range α}
    (h : List.Forall₂ (fun p q => number q.1 = number p.1 ∧ number q.2 = number p.2) parts r.parts)
    (v : α) : r.contains v = true ↔ ∃ p ∈ parts, number p.1 ≤ number v ∧ number v ≤ number p.2 := by
  simp only [Range.contains_iff, hn.le_iff]
  generalize r.parts = made at h
  induction h with
  | nil => simp
  | cons hpq _ ih => simp only [List.exists_mem_cons_iff, ih, hpq.1, hpq.2]

/-- **Reading a range expression**: either no interval is inverted and they are what is read, or
the first inverted one is reported. -/
theorem read_of_writes (hn : Numeric number) (hne : parts ≠ []) (h : Writes number parts expr) :
    (∃ r : Range α, read expr = .ok r ∧ (∀ p ∈ parts, number p.1 ≤ number p.2) ∧
      ∀ v, r.contains v = true ↔ ∃ p ∈ parts, number p.1 ≤ number v ∧ number v ≤ number p.2) ∨
    ∃ a b : α, read (α := α) expr = .error (.invalidRestriction ("range " ++ expr)
        (Scalar.toText a ++ " is greater than " ++ Scalar.toText b)) ∧
      ∃ p ∈ parts, number a = number p.1 ∧ number b = number p.2 ∧ number p.2 < number p.1 := by
  obtain ⟨written, hwritten, hexpr⟩ := h
  have hwne : written ≠ [] := by
    rintro rfl
    cases hwritten
    exact hne rfl
  have hpieces : pieces (· == '|') expr.toList = written := by
    rw [hexpr, pieces_join hwne (hn.bar_not_mem_of_written hwritten)]
  rcases hn.readParts_of_written hwritten with ⟨made, hmade, hall, hsame⟩ | ⟨a, b, herr, hinverted⟩
  · have hread : read expr = .ok (⟨expr, made⟩ : Range α) := by
      simp only [read, hn.isNumeric, if_true, hpieces, hmade]
    exact .inl ⟨_, hread, hall, contains_iff_of_forall₂ hn hsame⟩
  · have hread : read (α := α) expr
        = .error (.invalidRestriction ("range " ++ expr) (Fault.inverted a b).message) := by
      simp only [read, hn.isNumeric, if_true, hpieces, herr]
    have hmessage : (Fault.inverted a b).message
        = Scalar.toText a ++ " is greater than " ++ Scalar.toText b := rfl
    rw [hmessage] at hread
    exact .inr ⟨a, b, hread, hinverted⟩

theorem writes_between (low high : α) : Writes number [(low, high)] (between low high).source := by
  refine ⟨_, .cons (.interval isBlanks_nil isBlanks_nil isBlanks_nil isBlanks_nil) .nil, ?_⟩
  simp [between, chars, List.intercalate]

/-- **Range expressions are read back**, for every type whose values are written as numbers. -/
theorem Numeric.readsBack (hn : Numeric number) : ReadsBack number where
  succeeds_iff hne h := by
    rcases read_of_writes hn hne h with ⟨r, hr, hall, -⟩ | ⟨a, b, herr, p, hp, -, -, hlt⟩
    · exact iff_of_true ⟨r, hr⟩ hall
    · refine iff_of_false ?_ fun hall => absurd (hall p hp) (not_le.2 hlt)
      rintro ⟨r, hr⟩
      rw [hr] at herr
      cases herr
  contains_iff hne h hr := by
    rcases read_of_writes hn hne h with ⟨r, hr', -, hcontains⟩ | ⟨a, b, herr, -⟩
    · obtain rfl := Except.ok.inj (hr'.symm.trans hr)
      exact hcontains
    · rw [hr] at herr
      cases herr
  refuses hne h herr := by
    rcases read_of_writes hn hne h with ⟨r, hr, -⟩ | ⟨a, b, herr', p, hp, ha, hb, hlt⟩
    · rw [hr] at herr
      cases herr
    · exact ⟨a, b, ⟨p, hp, ha, hb⟩, by rwa [ha, hb],
        (Except.error.inj (herr'.symm.trans herr)).symm⟩
  between {low high} hle := by
    rcases read_of_writes hn (List.cons_ne_nil _ _) (writes_between low high)
      with ⟨r, hr, -, hcontains⟩ | ⟨a, b, -, p, hp, -, -, hlt⟩
    · refine ⟨r, hr, fun v => ?_⟩
      rw [Bool.eq_iff_iff, hcontains, Range.contains_iff]
      simp [Range.between, hn.le_iff]
    · obtain rfl := List.mem_singleton.1 hp
      exact absurd hle (not_le.2 hlt)

end Range

end DataTree
