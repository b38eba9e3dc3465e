import DataTree.Proofs.Path.Segments

/-!
# DataTree.Proofs.Path.Predicate

The predicates of keys.  In a predicate for one key leaf the part stands between
brackets, in one for several between quotes.  So a part that opens or closes nothing
keeps the predicate sealed (`sealed_tag`): slashes, blanks and dots do no harm.
-/

namespace DataTree

open DataTree.Path

namespace KeySpec

variable {k : KeySpec} {field part key : String} {parts fields : List String}

/-- The parts of a key, however many there are. -/
def partsOf (k : KeySpec) (key : String) : List String :=
  match k.fields with
  | [_] => [key]
  | _ => (Text.pieces (· == ' ') key.toList).map String.ofList

theorem split_eq_ok {list : String} (h : k.split list key = .ok parts) : parts = k.partsOf key := by
  unfold split at h
  unfold partsOf
  rcases hf : k.fields with _ | ⟨field, _ | ⟨field', fields⟩⟩ <;> simp only [hf] at h
  case cons.nil => exact (Except.ok.inj h).symm
  all_goals
    split at h
    · exact (Except.ok.inj h).symm
    · cases h

/-- What an entry's path has more than that of its list. -/
def tag (k : KeySpec) (key : String) : String :=
  if k.isKeyless then "" else k.predicate (k.partsOf key)

/-- The key opens or closes nothing in its predicate. -/
def Tame (k : KeySpec) (key : String) : Prop :=
  match k.fields with
  | [_] => ∀ c ∈ key.toList, c ∉ ['[', ']', '\'']
  | _ => ∀ part ∈ k.partsOf key, '\'' ∉ part.toList

/-! ## Walking through a predicate -/

theorem crosses_open : Crosses {} ['['] ⟨1, false⟩ := by decide

theorem crosses_close : Crosses ⟨1, false⟩ [']'] {} := by decide

/-- Between the brackets of a predicate slashes do not separate. -/
theorem crosses_bracketed {cs : List Char} (h : ∀ c ∈ cs, c ∉ ['[', ']', '\'']) :
    Crosses ⟨1, false⟩ cs ⟨1, false⟩ := by
  refine crosses_of_forall fun c hc => ⟨?_, fun hsep => by cases hsep.2⟩
  have hno := h c hc
  simp only [List.mem_cons, List.not_mem_nil, or_false, not_or] at hno
  simp [Nesting.step, hno]

/-- Between quotes only a quote counts. -/
theorem crosses_quoted {cs : List Char} (h : '\'' ∉ cs) : Crosses ⟨1, true⟩ cs ⟨1, true⟩ := by
  refine crosses_of_forall fun c hc => ⟨?_, fun hsep => by cases hsep.2⟩
  have hno : c ≠ '\'' := fun hq => h (hq ▸ hc)
  simp [Nesting.step, hno]

theorem crosses_pair (hf : Inert field.toList) (hp : '\'' ∉ part.toList) :
    Crosses ⟨1, false⟩ (field ++ "='" ++ part ++ "'").toList ⟨1, false⟩ := by
  have hopen : Crosses ⟨1, false⟩ "='".toList ⟨1, true⟩ := by decide
  have hclose : Crosses ⟨1, true⟩ "'".toList ⟨1, false⟩ := by decide
  simp only [String.toList_append]
  exact (((hf.crosses _).append hopen).append (crosses_quoted hp)).append hclose

theorem crosses_pairs (hf : ∀ field ∈ fields, Inert field.toList)
    (hp : ∀ part ∈ parts, '\'' ∉ part.toList) :
    Crosses ⟨1, false⟩
      (" ".intercalate (List.zipWith (fun field part => field ++ "='" ++ part ++ "'")
        fields parts)).toList
      ⟨1, false⟩ := by
  induction fields generalizing parts with
  | nil => exact ⟨rfl, rfl⟩
  | cons field fields ih =>
    cases parts with
    | nil => exact ⟨rfl, rfl⟩
    | cons part parts =>
      have hpair := crosses_pair (hf field List.mem_cons_self) (hp part List.mem_cons_self)
      have hrest := ih (fun f hm => hf f (List.mem_cons_of_mem _ hm))
        fun p hm => hp p (List.mem_cons_of_mem _ hm)
      rw [List.zipWith_cons_cons]
      cases h : List.zipWith (fun field part => field ++ "='" ++ part ++ "'") fields parts with
      | nil => simpa using hpair
      | cons pair pairs =>
        rw [h] at hrest
        rw [String.intercalate_cons_cons, String.toList_append, String.toList_append]
        have hblank : Crosses ⟨1, false⟩ " ".toList ⟨1, false⟩ := by decide
        exact (hpair.append hblank).append hrest

/-- **Tame keys**: their predicates are sealed. -/
theorem sealed_tag (hf : ∀ field ∈ k.fields, Inert field.toList) (h : k.Tame key) :
    Sealed (k.tag key).toList := by
  obtain ⟨fields⟩ := k
  unfold tag
  split
  · exact ⟨rfl, rfl⟩
  unfold predicate
  split
  · next field part hfields hparts =>
    simp only at hfields
    subst hfields
    obtain rfl : key = part := by simpa [partsOf] using hparts
    have hfield := hf field List.mem_cons_self
    have heq : Crosses ⟨1, false⟩ "=".toList ⟨1, false⟩ := by decide
    simp only [String.toList_append]
    exact (((crosses_open.append (hfield.crosses _)).append heq).append
      (crosses_bracketed h)).append crosses_close
  · next hno =>
    have hquotes : ∀ part ∈ partsOf ⟨fields⟩ key, '\'' ∉ part.toList := by
      unfold Tame at h
      split at h
      · next field hfields =>
        simp only at hfields
        subst hfields
        exact absurd rfl (hno field key rfl)
      · exact h
    simp only [String.toList_append]
    exact (crosses_open.append (crosses_pairs hf hquotes)).append crosses_close

/-! ## How predicates begin and end -/

theorem predicate_eq (k : KeySpec) (parts : List String) :
    ∃ inner, (k.predicate parts).toList = '[' :: inner ++ [']'] := by
  let pairs := List.zipWith (fun field part => field ++ "='" ++ part ++ "'") k.fields parts
  have hpairs : ∃ inner, ("[" ++ " ".intercalate pairs ++ "]").toList = '[' :: inner ++ [']'] :=
    ⟨(" ".intercalate pairs).toList, by simp [String.toList_append]⟩
  unfold predicate
  split
  · next field part _ => exact ⟨(field ++ "=" ++ part).toList, by simp [String.toList_append]⟩
  · exact hpairs

/-- A tag is empty or stands between brackets. -/
theorem tag_eq (k : KeySpec) (key : String) :
    k.tag key = "" ∨ ∃ inner, (k.tag key).toList = '[' :: inner ++ [']'] := by
  unfold tag
  split
  · exact .inl rfl
  · exact .inr (predicate_eq k _)

end KeySpec

end DataTree
