import DataTree.Key
import DataTree.Path
import Mathlib.Data.List.TakeWhile

/-!
# DataTree.Proofs.Path.Segments

How paths fall into segments.

Cutting a path is a walk from place to place.  `Crosses s cs s'` says that the walk
through `cs` leads from `s` to `s'` and meets no slash that separates.  A text that
crosses from outside to outside is `Sealed`.

The predicate of an entry is written behind the path of its list without any escaping.
It becomes a part of the last segment exactly if it is sealed
(`segments_child_append_iff`), and then a query without the predicate is answered
(`answers_append_tag`).
-/

namespace DataTree.Path

variable {s s' s'' : Nesting} {as bs cs tag : List Char} {path name : String}

/-! ## Walking -/

/-- Nesting goes on behind a text where the text leaves it. -/
theorem Nesting.after_append (s : Nesting) (as bs : List Char) :
    s.after (as ++ bs) = (s.after as).after bs := List.foldl_append

@[simp] theorem Nesting.step_slash (s : Nesting) : s.step '/' = s := by simp [step]

theorem Nesting.eq_of_isOutside {s : Nesting} (h : s.isOutside = true) : s = {} := by
  obtain ⟨depth, quoted⟩ := s
  simpa [isOutside] using h

/-- There is a first stretch. -/
theorem exists_stretches_cons (s : Nesting) (cs : List Char) :
    ∃ first rest, stretches s cs = first :: rest := by
  cases cs with
  | nil => exact ⟨[], [], rfl⟩
  | cons c cs =>
    rw [stretches]
    split
    · exact ⟨_, _, rfl⟩
    · cases h : Text.consHead c (stretches (s.step c) cs) with
      | nil => exact absurd h (Text.consHead_ne_nil _ _)
      | cons first rest => exact ⟨first, rest, rfl⟩

/-- There is a last stretch. -/
theorem exists_stretches_concat (s : Nesting) (cs : List Char) :
    ∃ init last, stretches s cs = init ++ [last] := by
  obtain ⟨first, rest, h⟩ := exists_stretches_cons s cs
  refine ⟨(first :: rest).dropLast, (first :: rest).getLast (List.cons_ne_nil _ _), ?_⟩
  rw [h, List.dropLast_concat_getLast]

/-- The last stretch of one text goes on in the next. -/
theorem stretches_append {init rest : List (List Char)} {last first : List Char}
    (ha : stretches s as = init ++ [last]) (hb : stretches (s.after as) bs = first :: rest) :
    stretches s (as ++ bs) = init ++ (last ++ first) :: rest := by
  induction as generalizing s init last with
  | nil =>
    cases init with
    | nil =>
      obtain rfl : [] = last := (List.cons.inj ha).1
      exact hb
    | cons a init => simp [stretches] at ha
  | cons c cs ih =>
    rw [List.cons_append]
    rw [Nesting.after, List.foldl_cons] at hb
    obtain ⟨piece, pieces, hcs⟩ := exists_stretches_cons (s.step c) cs
    by_cases hsep : c = '/' ∧ s.isOutside = true
    · rw [hsep.1, Nesting.step_slash] at hb hcs
      rw [stretches, if_pos hsep] at ha ⊢
      cases init with
      | nil =>
        rw [hcs] at ha
        simp at ha
      | cons a init =>
        obtain ⟨rfl, hrest⟩ := List.cons.inj ha
        rw [ih hrest hb]
        rfl
    · rw [stretches, if_neg hsep] at ha ⊢
      rw [hcs, Text.consHead] at ha
      cases init with
      | nil =>
        obtain ⟨rfl, rfl⟩ := List.cons.inj ha
        rw [ih (show stretches (s.step c) cs = [] ++ [piece] from hcs) hb]
        rfl
      | cons a init =>
        obtain ⟨rfl, rfl⟩ := List.cons.inj ha
        rw [ih (show stretches (s.step c) cs = (piece :: init) ++ [last] from hcs) hb]
        rfl

/-- Only the separating slashes are in no stretch. -/
theorem length_stretches (s : Nesting) (cs : List Char) :
    (stretches s cs).flatten.length + (stretches s cs).length = cs.length + 1 := by
  induction cs generalizing s with
  | nil => rfl
  | cons c cs ih =>
    rw [stretches]
    split
    · have h := ih s
      simp only [List.flatten_cons, List.nil_append, List.length_cons]
      omega
    · have h := ih (s.step c)
      obtain ⟨piece, pieces, hcs⟩ := exists_stretches_cons (s.step c) cs
      rw [hcs] at h ⊢
      simp only [Text.consHead, List.flatten_cons, List.length_append, List.length_cons] at h ⊢
      omega

/-! ## Crossing -/

/-- The way through a text leads from one place to another, and no slash separates. -/
def Crosses (s : Nesting) (cs : List Char) (s' : Nesting) : Prop :=
  stretches s cs = [cs] ∧ s.after cs = s'

/-- A text that no slash separates, and with all brackets and quotes closed. -/
def Sealed (cs : List Char) : Prop := Crosses {} cs {}

/-- Behind the path one is outside of all brackets and quotes. -/
def Closed (path : String) : Prop := Nesting.after {} path.toList = {}

instance (s : Nesting) (cs : List Char) (s' : Nesting) : Decidable (Crosses s cs s') :=
  inferInstanceAs (Decidable (stretches s cs = [cs] ∧ s.after cs = s'))

instance : DecidablePred Sealed := fun cs => inferInstanceAs (Decidable (Crosses {} cs {}))

instance : DecidablePred Closed := fun path =>
  inferInstanceAs (Decidable (Nesting.after {} path.toList = {}))

/-- Ways through one text after the other. -/
theorem Crosses.append (h : Crosses s as s') (h' : Crosses s' bs s'') :
    Crosses s (as ++ bs) s'' := by
  obtain ⟨ha, rfl⟩ := h
  refine ⟨stretches_append (show stretches s as = [] ++ [as] from ha) h'.1, ?_⟩
  rw [Nesting.after_append, h'.2]

/-- Where no character leads away and no slash separates. -/
theorem crosses_of_forall (h : ∀ c ∈ cs, s.step c = s ∧ ¬ (c = '/' ∧ s.isOutside = true)) :
    Crosses s cs s := by
  induction cs with
  | nil => exact ⟨rfl, rfl⟩
  | cons c cs ih =>
    obtain ⟨hstep, hsep⟩ := h c List.mem_cons_self
    obtain ⟨hcs, hafter⟩ := ih fun c' hc' => h c' (List.mem_cons_of_mem c hc')
    constructor
    · rw [stretches, if_neg hsep, hstep, hcs, Text.consHead]
    · rw [Nesting.after, List.foldl_cons, hstep]
      exact hafter

/-! ## Names -/

/-- No character of the text means anything in a path. -/
def Inert (cs : List Char) : Prop := ∀ c ∈ cs, c ∉ ['/', '[', ']', '\'']

instance : DecidablePred Inert := fun cs => List.decidableBAll (· ∉ ['/', '[', ']', '\'']) cs

/-- A name that a path can hold as a segment of its own, and that is no step up or on the
spot. -/
def IsName (name : String) : Prop :=
  Inert name.toList ∧ name.toList ∉ [[], ['.'], ['.', '.']]

instance : DecidablePred IsName := fun name =>
  inferInstanceAs (Decidable (Inert name.toList ∧ name.toList ∉ [[], ['.'], ['.', '.']]))

theorem Inert.crosses (h : Inert cs) (s : Nesting) : Crosses s cs s := by
  refine crosses_of_forall fun c hc => ?_
  have hno := h c hc
  simp only [List.mem_cons, List.not_mem_nil, or_false, not_or] at hno
  exact ⟨by simp [Nesting.step, hno], fun hsep => hno.1 hsep.1⟩

theorem IsName.ne_nil (h : IsName name) : name.toList ≠ [] := fun hnil => h.2 (by simp [hnil])

/-- A name is one stretch. -/
theorem IsName.stretches_eq (h : IsName name) : stretches {} name.toList = [name.toList] :=
  (h.1.crosses {}).1

theorem IsName.slash_notMem (h : IsName name) : '/' ∉ name.toList := fun hm => h.1 _ hm (by simp)

theorem stretches_slash_cons (cs : List Char) :
    stretches {} ('/' :: cs) = [] :: stretches {} cs := by
  rw [stretches, if_pos ⟨rfl, rfl⟩]

/-! ## Paths of children -/

/-- A closed path that ends in a slash ends in an empty stretch. -/
theorem stretches_of_getLast? (hc : Closed path) (h : path.toList.getLast? = some '/') :
    ∃ init, stretches {} path.toList = init ++ [[]] := by
  obtain ⟨front, hfront⟩ : ∃ front, path.toList = front ++ ['/'] := List.getLast?_eq_some_iff.1 h
  have hback : Nesting.after {} front = {} := by
    rw [Closed, hfront, Nesting.after_append] at hc
    simpa [Nesting.after] using hc
  obtain ⟨init, last, hinit⟩ := exists_stretches_concat {} front
  refine ⟨init ++ [last], ?_⟩
  have hslash : stretches (Nesting.after {} front) ['/'] = [[], []] := by
    rw [hback]
    rfl
  rw [hfront, stretches_append hinit hslash]
  simp

/-- The stretches of the path of a child end with its name. -/
theorem stretches_child (hc : Closed path) (hn : IsName name) :
    ∃ init, stretches {} (child path name).toList = init ++ [name.toList] ∧
      init.filter (fun segment => !segment.isEmpty) = segments path.toList := by
  have hafter : Nesting.after {} path.toList = {} := hc
  rw [child]
  split
  · next h =>
    obtain ⟨init, hinit⟩ := stretches_of_getLast? hc h
    refine ⟨init, ?_, by simp [segments, hinit]⟩
    rw [String.toList_append, stretches_append hinit (by rw [hafter]; exact hn.stretches_eq)]
    rfl
  · obtain ⟨init, last, hinit⟩ := exists_stretches_concat {} path.toList
    refine ⟨init ++ [last], ?_, by simp [segments, hinit]⟩
    have hname : stretches {} ('/' :: name.toList) = [[], name.toList] := by
      rw [stretches_slash_cons, hn.stretches_eq]
    rw [String.toList_append, String.toList_append, List.append_assoc,
      stretches_append hinit (by rw [hafter]; exact hname)]
    simp

/-- Below a closed path a name is a segment. -/
theorem segments_child (hc : Closed path) (hn : IsName name) :
    segments (child path name).toList = segments path.toList ++ [name.toList] := by
  obtain ⟨init, hinit, hsegments⟩ := stretches_child hc hn
  rw [segments, hinit, List.filter_append, hsegments]
  simp [hn.ne_nil]

/-- A name does not change how the path nests. -/
theorem after_child (hn : IsName name) :
    Nesting.after {} (child path name).toList = Nesting.after {} path.toList := by
  rw [child]
  split
  · rw [String.toList_append, Nesting.after_append, (hn.1.crosses _).2]
  · rw [String.toList_append, String.toList_append, Nesting.after_append, (hn.1.crosses _).2,
      Nesting.after_append]
    simp [Nesting.after]

/-- The path of a child is closed just if that of its parent is. -/
theorem closed_child (hn : IsName name) : Closed (child path name) ↔ Closed path := by
  rw [Closed, Closed, after_child hn]

/-! ## Paths of entries -/

/-- A closed path that ends in a segment has a slash put behind it. -/
theorem child_eq (hc : Closed path) {init : List (List Char)} {last : List Char}
    (hinit : stretches {} path.toList = init ++ [last]) (hlast : last ≠ []) (name : String) :
    child path name = path ++ "/" ++ name := by
  refine if_neg fun h => ?_
  obtain ⟨init', hinit'⟩ := stretches_of_getLast? hc h
  rw [hinit] at hinit'
  exact hlast (List.append_inj_right' hinit' rfl |> List.head_eq_of_cons_eq)

/-- Segments with a text put behind the last one. -/
def withTag (segments : List (List Char)) (tag : List Char) : List (List Char) :=
  segments.dropLast ++ [segments.getLastD [] ++ tag]

theorem withTag_concat (init : List (List Char)) (last tag : List Char) :
    withTag (init ++ [last]) tag = init ++ [last ++ tag] := by
  simp [withTag, List.getLastD_eq_getLast?]

/-- A text that is a stretch of itself is the only one. -/
theorem eq_nil_of_stretches_eq {rest : List (List Char)} (h : stretches s cs = cs :: rest) :
    rest = [] := by
  have hlen := length_stretches s cs
  rw [h] at hlen
  simp only [List.flatten_cons, List.length_append, List.length_cons] at hlen
  exact List.length_eq_zero_iff.1 (by omega)

/-- What stands between a slash and a segment before it. -/
theorem stretches_append_slash (tag : List Char) (hn : IsName name) :
    ∃ first rest, stretches {} (tag ++ '/' :: name.toList) = first :: rest ∧
      (first = tag ∧ rest.filter (fun segment => !segment.isEmpty) = [name.toList] ↔
        Sealed tag) := by
  obtain ⟨init, last, hinit⟩ := exists_stretches_concat {} tag
  by_cases hout : (Nesting.after {} tag).isOutside = true
  · have hafter := Nesting.eq_of_isOutside hout
    have hname : stretches (Nesting.after {} tag) ('/' :: name.toList) = [[], name.toList] := by
      rw [hafter, stretches_slash_cons, hn.stretches_eq]
    have hall := stretches_append hinit hname
    rw [List.append_nil] at hall
    cases init with
    | nil =>
      refine ⟨last, [name.toList], hall, ?_⟩
      rw [Sealed, Crosses, hinit]
      simp [hafter, hn.ne_nil]
    | cons first init =>
      refine ⟨first, init ++ [last, name.toList], hall, fun h => ?_, fun h => ?_⟩
      · obtain ⟨rfl, -⟩ := h
        have hnil := eq_nil_of_stretches_eq hinit
        simp at hnil
      · have hone := hinit.symm.trans h.1
        simp at hone
  · have hname : stretches (Nesting.after {} tag) ('/' :: name.toList) =
        [['/'] ++ name.toList] := by
      rw [stretches, if_neg fun h => hout h.2, Nesting.step_slash, (hn.1.crosses _).1]
      rfl
    have hall := stretches_append hinit hname
    have hno : ¬ Sealed tag := fun h => hout (by rw [h.2]; rfl)
    cases init with
    | nil => exact ⟨_, [], hall, fun h => (by simp at h), fun h => absurd h hno⟩
    | cons first init =>
      refine ⟨first, init ++ [last ++ (['/'] ++ name.toList)], hall,
        fun h => ?_, fun h => absurd h hno⟩
      have hmem : last ++ (['/'] ++ name.toList) ∈ [name.toList] := by
        rw [← h.2]
        simp
      have hslash : '/' ∈ name.toList := by
        rw [← List.mem_singleton.1 hmem]
        simp
      exact absurd hslash hn.slash_notMem

/-- **Splitting below an entry**: a text behind the last segment of a path stays with that
segment exactly if it is sealed. -/
theorem segments_child_append_iff {tag : String} (hc : Closed path) {init : List (List Char)}
    {last : List Char} (hinit : stretches {} path.toList = init ++ [last]) (hlast : last ≠ [])
    (htag : (path ++ tag).toList.getLast? ≠ some '/') (hn : IsName name) :
    segments (child (path ++ tag) name).toList
        = withTag (segments path.toList) tag.toList ++ [name.toList] ↔ Sealed tag.toList := by
  have hafter : Nesting.after {} path.toList = {} := hc
  obtain ⟨first, rest, hrest, hiff⟩ := stretches_append_slash tag.toList hn
  have hsegments : segments path.toList
      = init.filter (fun segment => !segment.isEmpty) ++ [last] := by
    rw [segments, hinit, List.filter_append]
    simp [hlast]
  have hall : segments (child (path ++ tag) name).toList
      = init.filter (fun segment => !segment.isEmpty) ++
        (last ++ first) :: rest.filter fun segment => !segment.isEmpty := by
    rw [child, if_neg htag, segments, String.toList_append, String.toList_append,
      String.toList_append, List.append_assoc, List.append_assoc,
      stretches_append hinit (by rw [hafter]; exact hrest), List.filter_append,
      List.filter_cons_of_pos (by simp [hlast])]
  rw [hall, hsegments, withTag_concat, List.append_assoc, List.append_cancel_left_eq, ← hiff]
  simp

/-- Below a sealed entry paths go on as below its list. -/
theorem closed_append {tag : String} (hc : Closed path) (ht : Sealed tag.toList) :
    Closed (path ++ tag) := by
  have hafter : Nesting.after {} path.toList = {} := hc
  rw [Closed, String.toList_append, Nesting.after_append, hafter, ht.2]

/-- A sealed text behind a closed path goes with its last segment, or is one itself. -/
theorem segments_append {tag : String} (hc : Closed path) (ht : Sealed tag.toList)
    (hne : tag.toList ≠ []) :
    segments (path ++ tag).toList = withTag (segments path.toList) tag.toList ∨
      segments (path ++ tag).toList = segments path.toList ++ [tag.toList] := by
  have hafter : Nesting.after {} path.toList = {} := hc
  obtain ⟨init, last, hinit⟩ := exists_stretches_concat {} path.toList
  have hall : segments (path ++ tag).toList
      = (init ++ [last ++ tag.toList]).filter fun segment => !segment.isEmpty := by
    rw [segments, String.toList_append, stretches_append hinit (by rw [hafter]; exact ht.1)]
  rw [hall, segments, hinit]
  by_cases hlast : last = []
  · right
    simp [hlast, hne]
  · left
    simp [hlast, hne, withTag_concat]

/-! ## Queries -/

/-- Without a caller the walk starts at the root. -/
theorem resolve_none (cs : List Char) : resolve cs none = (segments cs).foldl stepInto [] := by
  unfold resolve
  split <;> simp_all

/-- Segments that are no step up or on the spot lead down one by one. -/
theorem foldl_stepInto {segs : List (List Char)} (h : ∀ s ∈ segs, s ≠ ['.'] ∧ s ≠ ['.', '.'])
    (place : List (List Char)) : segs.foldl stepInto place = place ++ segs := by
  induction segs generalizing place with
  | nil => simp
  | cons s segs ih =>
    obtain ⟨hdot, hup⟩ := h s List.mem_cons_self
    rw [List.foldl_cons, ih fun s' hs' => h s' (List.mem_cons_of_mem s hs'), stepInto, if_neg hdot,
      if_neg hup]
    simp

/-- Without dots there is nothing to resolve. -/
theorem resolve_eq (h : ∀ s ∈ segments cs, s ≠ ['.'] ∧ s ≠ ['.', '.']) :
    resolve cs none = segments cs := by
  rw [resolve_none, foldl_stepInto h, List.nil_append]

/-- Without a bracket there is nothing to cut off. -/
theorem segmentName_eq_self {s : List Char} (h : '[' ∉ s) : segmentName s = s := by
  refine List.takeWhile_eq_self_iff.2 fun c hc => ?_
  simp only [bne_iff_ne, ne_eq]
  rintro rfl
  exact h hc

/-- A text without a bracket is what is left of a segment that is cut at its first bracket if the
segment is that text, or goes on with a bracket behind it. -/
theorem eq_segmentName_iff {q s : List Char} (hq : '[' ∉ q) :
    q = segmentName s ↔ q = s ∨ ∃ predicate, s = q ++ '[' :: predicate := by
  constructor
  · rintro rfl
    have hsplit : segmentName s ++ s.dropWhile (· != '[') = s := List.takeWhile_append_dropWhile
    have hhead := List.head?_dropWhile_not (· != '[') s
    cases hrest : s.dropWhile (· != '[') with
    | nil =>
      rw [hrest, List.append_nil] at hsplit
      exact .inl hsplit
    | cons c predicate =>
      rw [hrest] at hhead
      obtain rfl : c = '[' := by simpa using hhead
      exact .inr ⟨predicate, by rw [← hrest, hsplit]⟩
  · rintro (rfl | ⟨predicate, rfl⟩)
    · exact (segmentName_eq_self hq).symm
    · rw [segmentName, List.takeWhile_append_of_pos fun c hc => ?_]
      · simp
      · simp only [bne_iff_ne, ne_eq]
        rintro rfl
        exact hq hc

/-- A predicate may be left out of a query in the last segment but one. -/
theorem answers_append_tag (front : List (List Char)) {q n : List Char} (hq : '[' ∉ q)
    (ht : tag = [] ∨ tag.head? = some '[') :
    answers (front ++ [q, n]) (front ++ [q ++ tag, n]) = true := by
  have hname : segmentName (q ++ tag) = q := by
    refine ((eq_segmentName_iff hq).2 ?_).symm
    obtain rfl | ht := ht
    · exact .inl (List.append_nil q).symm
    · cases tag with
      | nil => cases ht
      | cons c tag =>
        obtain rfl := Option.some.inj ht
        exact .inr ⟨tag, rfl⟩
  induction front with
  | nil => simp [answers, hq, hname]
  | cons s front ih =>
    obtain ⟨a, as, hqs⟩ : ∃ a as, front ++ [q, n] = a :: as := by
      cases front <;> exact ⟨_, _, rfl⟩
    obtain ⟨b, bs, hrs⟩ : ∃ b bs, front ++ [q ++ tag, n] = b :: bs := by
      cases front <;> exact ⟨_, _, rfl⟩
    rw [hqs, hrs] at ih
    rw [List.cons_append, List.cons_append, hqs, hrs, answers, ih, Bool.and_true]
    split
    · simp
    · next hs => simp [segmentName_eq_self (by simpa using hs)]

end DataTree.Path
