import DataTree.Proofs.Keys.Parts
import DataTree.Proofs.Path.Segments

/-!
# DataTree.Proofs.Reference.Name

The name at the end of a reference's path.

A path is cut at its separating slashes, and empty segments do not count; the name of the
leaf that a reference refers to is what follows the last slash.  For a last segment
without a predicate these agree unless the path ends in a slash (`leafName_eq`); then
the name is empty (`leafName_of_slash`), although the path leads to the same place.
-/

namespace DataTree

namespace Path

variable {s : Nesting} {cs last : List Char} {init : List (List Char)}

/-- The last stretch is the whole text or what follows one of its slashes. -/
theorem last_of_stretches (h : stretches s cs = init ++ [last]) :
    (init = [] → cs = last) ∧
      (init ≠ [] → ∃ front, cs = front ++ '/' :: last ∧ stretches {} last = [last]) := by
  induction cs generalizing s init last with
  | nil =>
    cases init with
    | nil => exact ⟨fun _ => (List.cons.inj h).1, fun hne => absurd rfl hne⟩
    | cons a init => simp [stretches] at h
  | cons c cs ih =>
    obtain ⟨piece, pieces, hcs⟩ := exists_stretches_cons (s.step c) cs
    by_cases hsep : c = '/' ∧ s.isOutside = true
    · rw [stretches, if_pos hsep] at h
      cases init with
      | nil =>
        obtain ⟨first, rest, hfirst⟩ := exists_stretches_cons s cs
        simp [hfirst] at h
      | cons a init =>
        obtain ⟨-, hrest⟩ := List.cons.inj h
        refine ⟨fun hnil => (by cases hnil), fun _ => ?_⟩
        obtain ⟨hwhole, hpart⟩ := ih hrest
        by_cases hinit : init = []
        · obtain rfl := hwhole hinit
          rw [hinit, Nesting.eq_of_isOutside hsep.2] at hrest
          exact ⟨[], by rw [hsep.1]; rfl, hrest⟩
        · obtain ⟨front, rfl, hlast⟩ := hpart hinit
          exact ⟨c :: front, rfl, hlast⟩
    · rw [stretches, if_neg hsep, hcs, Text.consHead] at h
      cases init with
      | nil =>
        obtain ⟨rfl, rfl⟩ := List.cons.inj h
        have hwhole : cs = piece :=
          (ih (show stretches (s.step c) cs = [] ++ [piece] from hcs)).1 rfl
        exact ⟨fun _ => by rw [hwhole], fun hne => absurd rfl hne⟩
      | cons a init =>
        obtain ⟨rfl, rfl⟩ := List.cons.inj h
        refine ⟨fun hnil => (by cases hnil), fun _ => ?_⟩
        obtain ⟨front, rfl, hlast⟩ :=
          (ih (show stretches (s.step c) cs = (piece :: init) ++ [last] from hcs)).2 (by simp)
        exact ⟨c :: front, rfl, hlast⟩

/-- Without brackets, every slash of a stretch would separate. -/
theorem slash_notMem_of_stretches (h : stretches {} cs = [cs]) (hplain : '[' ∉ cs) : '/' ∉ cs := by
  induction cs with
  | nil => simp
  | cons c cs ih =>
    rw [List.mem_cons, not_or] at hplain
    have hslash : c ≠ '/' := by
      rintro rfl
      rw [stretches_slash_cons] at h
      cases h
    have hstep : Nesting.step {} c = {} := by
      simp only [Nesting.step, Ne.symm hplain.1, ↓reduceIte]
      split <;> simp
    rw [stretches, if_neg fun hsep => hslash hsep.1, hstep] at h
    obtain ⟨piece, pieces, hcs⟩ := exists_stretches_cons {} cs
    rw [hcs, Text.consHead] at h
    obtain ⟨hpiece, rfl⟩ := List.cons.inj h
    obtain ⟨-, rfl⟩ := List.cons.inj hpiece
    rw [List.mem_cons, not_or]
    exact ⟨Ne.symm hslash, ih hcs hplain.2⟩

end Path

namespace ReferenceType

open DataTree.Path

variable {r : ReferenceType} {name last : List Char}

/-- What follows the last slash, if no slash and no bracket does. -/
theorem leafName_of_pieces {front : List (List Char)}
    (h : Text.pieces (· == '/') r.path.toList = front ++ [last]) (hplain : '[' ∉ last) :
    r.leafName = String.ofList last := by
  have hlast : (Text.pieces (· == '/') r.path.toList).getLastD [] = last := by
    rw [h, List.getLastD_eq_getLast?, List.getLast?_concat, Option.getD_some]
  rw [leafName, hlast]
  exact congrArg String.ofList (segmentName_eq_self hplain)

/-- A path that ends in a slash gives no name. -/
theorem leafName_of_slash (h : r.path.toList.getLast? = some '/') : r.leafName = "" := by
  obtain ⟨front, hfront⟩ := List.getLast?_eq_some_iff.1 h
  have hpieces : Text.pieces (· == '/') r.path.toList = Text.pieces (· == '/') front ++ [[]] := by
    rw [hfront, Text.pieces_append_cons rfl, Text.pieces_nil]
  exact leafName_of_pieces hpieces (by simp)

/-- Any other path gives the name that is its last segment. -/
theorem leafName_eq (h : (segments r.path.toList).getLast? = some name) (hplain : '[' ∉ name)
    (hslash : r.path.toList.getLast? ≠ some '/') : r.leafName = String.ofList name := by
  obtain ⟨init, last, hinit⟩ := exists_stretches_concat {} r.path.toList
  obtain ⟨hwhole, hpart⟩ := last_of_stretches hinit
  rw [segments, hinit, List.filter_append] at h
  by_cases hlast : last = []
  · exfalso
    by_cases hnil : init = []
    · rw [hnil, hlast] at h
      cases h
    · obtain ⟨front, hfront, -⟩ := hpart hnil
      rw [hfront, hlast] at hslash
      exact hslash (by simp)
  obtain rfl : last = name := by
    have hkeep : [last].filter (fun segment => !segment.isEmpty) = [last] := by simp [hlast]
    rwa [hkeep, List.getLast?_concat, Option.some.injEq] at h
  have hno : ∀ {cs}, stretches {} cs = [cs] → '[' ∉ cs →
      Text.pieces (· == '/') cs = [cs] := fun hcs hcs' => by
    refine Text.pieces_eq_self fun c hc => ?_
    have hne : c ≠ '/' := fun heq => slash_notMem_of_stretches hcs hcs' (heq ▸ hc)
    simpa using hne
  by_cases hnil : init = []
  · have heq := hwhole hnil
    rw [hnil, heq] at hinit
    have hpieces : Text.pieces (· == '/') r.path.toList = [] ++ [last] := by
      rw [heq, hno hinit hplain, List.nil_append]
    exact leafName_of_pieces hpieces hplain
  · obtain ⟨front, hfront, hlast'⟩ := hpart hnil
    have hpieces : Text.pieces (· == '/') r.path.toList =
        Text.pieces (· == '/') front ++ [last] := by
      rw [hfront, Text.pieces_append_cons rfl, hno hlast' hplain]
    exact leafName_of_pieces hpieces hplain

end ReferenceType

end DataTree
