import DataTree.Proofs.Keys.Parts

/-!
# DataTree.Proofs.Keys.Injective

Different keys have different predicates.

Parts are put into a predicate as they are: a part may have quotes, brackets and equals
signs of its own, or be empty.  What it cannot have, where there are several, is a space.
So the first pair of a predicate ends at the first space behind its field, whatever the
part is made of, and pair by pair the parts can be read off again
(`eq_of_intercalate_pairs`).  The fields are the same on both sides and may have any
characters.
-/

namespace DataTree

namespace Text

variable {α : Type} {sep : Char → Bool} {cs : List Char} {a : α} {as as' bs bs' : List α}

/-- No separator is in a piece. -/
theorem of_mem_pieces {piece : List Char} (h : piece ∈ pieces sep cs) :
    ∀ c ∈ piece, sep c = false := by
  induction cs generalizing piece with
  | nil =>
    rw [List.mem_singleton.1 h]
    simp
  | cons c cs ih =>
    cases hc : sep c with
    | true =>
      rw [pieces_cons_of_sep hc] at h
      obtain rfl | h := List.mem_cons.1 h
      · simp
      · exact ih h
    | false =>
      obtain ⟨first, rest, hp⟩ := List.exists_cons_of_ne_nil (pieces_ne_nil sep cs)
      rw [pieces_cons_of_not_sep hc, hp, consHead] at h
      obtain rfl | h := List.mem_cons.1 h
      · have hfirst := ih (hp ▸ List.mem_cons_self)
        exact List.forall_mem_cons.2 ⟨hc, hfirst⟩
      · exact ih (hp ▸ List.mem_cons_of_mem _ h)

/-- What stands before the first `a`, and what stands behind it. -/
theorem append_cons_inj (has : a ∉ as) (has' : a ∉ as') (h : as ++ a :: bs = as' ++ a :: bs') :
    as = as' ∧ bs = bs' := by
  induction as generalizing as' with
  | nil =>
    cases as' with
    | nil => exact ⟨rfl, (List.cons.inj h).2⟩
    | cons c as' =>
      obtain rfl := (List.cons.inj h).1
      exact absurd List.mem_cons_self has'
  | cons c as ih =>
    cases as' with
    | nil =>
      obtain rfl := (List.cons.inj h).1
      exact absurd List.mem_cons_self has
    | cons c' as' =>
      obtain ⟨rfl, hrest⟩ := List.cons.inj h
      obtain ⟨rfl, hbs⟩ := ih (fun hm => has (List.mem_cons_of_mem _ hm))
        (fun hm => has' (List.mem_cons_of_mem _ hm)) hrest
      exact ⟨rfl, hbs⟩

end Text

namespace KeySpec

variable {k : KeySpec} {list list' key key' : String} {fields parts parts' : List String}

/-! ## Pairs -/

/-- What a predicate for several key leaves says of one of them. -/
def pair (field part : String) : String := field ++ "='" ++ part ++ "'"

theorem toList_pair (field part : String) :
    (pair field part).toList = field.toList ++ '=' :: '\'' :: (part.toList ++ ['\'']) := by
  simp [pair]

theorem pair_injective (field : String) {part part' : String}
    (h : pair field part = pair field part') : part = part' := by
  have hchars := congrArg String.toList h
  rw [toList_pair, toList_pair] at hchars
  exact String.toList_inj.1 (by simpa using hchars)

/-- Where more follows behind a space, a part without spaces ends before the first one. -/
theorem pair_append_injective (field : String) {part part' rest rest' : String}
    (hp : ' ' ∉ part.toList) (hp' : ' ' ∉ part'.toList)
    (h : pair field part ++ " " ++ rest = pair field part' ++ " " ++ rest') :
    part = part' ∧ rest = rest' := by
  have hsplit : ∀ part rest : String, (pair field part ++ " " ++ rest).toList
      = (field.toList ++ ['=', '\'']) ++ ((part.toList ++ ['\'']) ++ ' ' :: rest.toList) := by
    intro part rest
    simp [toList_pair]
  have hchars := congrArg String.toList h
  rw [hsplit, hsplit, List.append_cancel_left_eq] at hchars
  obtain ⟨hpart, hrest⟩ := Text.append_cons_inj (by simpa using hp) (by simpa using hp') hchars
  exact ⟨String.toList_inj.1 (List.append_cancel_right hpart), String.toList_inj.1 hrest⟩

/-- Parts without spaces can be read off the pairs that they make with the same fields. -/
theorem eq_of_intercalate_pairs (hlen : parts.length = fields.length)
    (hlen' : parts'.length = fields.length) (hp : ∀ part ∈ parts, ' ' ∉ part.toList)
    (hp' : ∀ part ∈ parts', ' ' ∉ part.toList)
    (h : " ".intercalate (List.zipWith pair fields parts)
      = " ".intercalate (List.zipWith pair fields parts')) : parts = parts' := by
  induction fields generalizing parts parts' with
  | nil =>
    obtain rfl := List.length_eq_zero_iff.1 hlen
    obtain rfl := List.length_eq_zero_iff.1 hlen'
    rfl
  | cons field fields ih =>
    obtain ⟨part, parts, rfl⟩ := List.exists_cons_of_length_eq_add_one hlen
    obtain ⟨part', parts', rfl⟩ := List.exists_cons_of_length_eq_add_one hlen'
    obtain ⟨hpart, hrest⟩ := List.forall_mem_cons.1 hp
    obtain ⟨hpart', hrest'⟩ := List.forall_mem_cons.1 hp'
    rw [List.length_cons, List.length_cons, Nat.add_right_cancel_iff] at hlen hlen'
    cases fields with
    | nil =>
      obtain rfl := List.length_eq_zero_iff.1 hlen
      obtain rfl := List.length_eq_zero_iff.1 hlen'
      have hpair : pair field part = pair field part' := by simpa using h
      rw [pair_injective field hpair]
    | cons next fields =>
      obtain ⟨second, parts, rfl⟩ := List.exists_cons_of_length_eq_add_one hlen
      obtain ⟨second', parts', rfl⟩ := List.exists_cons_of_length_eq_add_one hlen'
      simp only [List.zipWith_cons_cons, String.intercalate_cons_cons] at h ih
      obtain ⟨rfl, hjoined⟩ := pair_append_injective field hpart hpart' h
      rw [ih hlen hlen' hrest hrest' hjoined]

/-! ## Predicates -/

/-- Where there are several key leaves, no part has a space. -/
theorem spaceless_of_split (h : k.split list key = .ok parts) (hk : ∀ field, k.fields ≠ [field]) :
    ∀ part ∈ parts, ' ' ∉ part.toList := by
  have hpieces : parts = (Text.pieces (· == ' ') key.toList).map String.ofList := by
    rw [split_eq_ok h, partsOf]
    split
    · next field hfields => exact absurd hfields (hk field)
    · rfl
  intro part hm hspace
  rw [hpieces] at hm
  obtain ⟨piece, hpiece, rfl⟩ := List.mem_map.1 hm
  rw [String.toList_ofList] at hspace
  have hno := Text.of_mem_pieces hpiece ' ' hspace
  simp at hno

theorem predicate_single {field : String} (hk : k.fields = [field]) (part : String) :
    k.predicate [part] = "[" ++ field ++ "=" ++ part ++ "]" := by
  simp [predicate, hk]

theorem predicate_pairs (hk : ∀ field, k.fields ≠ [field]) (parts : List String) :
    k.predicate parts = "[" ++ " ".intercalate (List.zipWith pair k.fields parts) ++ "]" := by
  unfold predicate
  split
  · next field part hfields => exact absurd hfields (hk field)
  · rfl

/-- Equal predicates are made of the parts of one key. -/
theorem eq_of_predicate_eq (h : k.split list key = .ok parts) (h' : k.split list' key' = .ok parts')
    (heq : k.predicate parts = k.predicate parts') : key = key' := by
  have hlen := length_of_split h
  have hlen' := length_of_split h'
  have hparts : parts = parts' := by
    by_cases hk : ∃ field, k.fields = [field]
    · obtain ⟨field, hk⟩ := hk
      rw [hk] at hlen hlen'
      obtain ⟨part, rfl⟩ := List.length_eq_one_iff.1 hlen
      obtain ⟨part', rfl⟩ := List.length_eq_one_iff.1 hlen'
      rw [predicate_single hk, predicate_single hk] at heq
      simpa using heq
    · have hk : ∀ field, k.fields ≠ [field] := fun field hf => hk ⟨field, hf⟩
      rw [predicate_pairs hk, predicate_pairs hk] at heq
      exact eq_of_intercalate_pairs hlen hlen' (spaceless_of_split h hk) (spaceless_of_split h' hk)
        (by simpa using heq)
  rw [← intercalate_parts h, ← intercalate_parts h', hparts]

end KeySpec

end DataTree
