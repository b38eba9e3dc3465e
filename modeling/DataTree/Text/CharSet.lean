/-!
# DataTree.Text.CharSet

Sets of characters, as the places where membership changes.

Going through the code points from zero upwards one is outside of the set at
first, and at each of the places in `changes` one steps into it or out of it:

    letters of ASCII = 65, 91, 97, 123

The places ascend, so a set has one form, and the operations of sets are merges:
`merge op` walks through two lists of places side by side and keeps the places
where the Boolean combination of the two memberships changes.  Code points of
surrogates are never members, so that a complement has characters only.
-/

namespace DataTree.Text

/-! ## Places where membership changes -/

/-- Membership of `n` for a walk that starts with `state` and turns at each place. -/
def inside (state : Bool) : List Nat → Nat → Bool
  | [], _ => state
  | k :: ks, n => if n < k then state else inside (!state) ks n

/-- Put a place in front if membership changes there. -/
def turn (before after : Bool) (k : Nat) (ks : List Nat) : List Nat :=
  if before = after then ks else k :: ks

/-- Walk on through one list of places when the other one is used up. -/
def mergeRest (op : Bool → Bool → Bool) (a b : Bool) : List Nat → List Nat
  | [] => []
  | y :: ys => turn (op a b) (op a (!b)) y (mergeRest op a (!b) ys)

/-- Walk through the second list up to the next place `x` of the first one, then
go on with `rest`. -/
def mergeAt (op : Bool → Bool → Bool) (x : Nat) (a : Bool) (rest : Bool → List Nat → List Nat)
    (b : Bool) : List Nat → List Nat
  | [] => turn (op a b) (op (!a) b) x (rest b [])
  | y :: ys =>
    if x < y then turn (op a b) (op (!a) b) x (rest b (y :: ys))
    else if y < x then turn (op a b) (op a (!b)) y (mergeAt op x a rest (!b) ys)
    else turn (op a b) (op (!a) (!b)) x (rest (!b) ys)

/-- The places where a combination of two memberships changes; `a` and `b` are the
memberships at the start. -/
def merge (op : Bool → Bool → Bool) : List Nat → Bool → Bool → List Nat → List Nat
  | [], a, b, ys => mergeRest op a b ys
  | x :: xs, a, b, ys => mergeAt op x a (merge op xs (!a)) b ys

/-- The places that lie above all places before them, the first one not below `lo`. -/
def ascend (lo : Nat) : List Nat → List Nat
  | [] => []
  | k :: ks => if lo ≤ k then k :: ascend (k + 1) ks else ascend lo ks

theorem mem_turn {before after : Bool} {k i : Nat} {ks : List Nat}
    (h : i ∈ turn before after k ks) : i = k ∨ i ∈ ks := by
  unfold turn at h
  split at h
  · exact Or.inr h
  · exact List.mem_cons.1 h

theorem mem_mergeRest {op : Bool → Bool → Bool} {a b : Bool} {i : Nat} {ys : List Nat}
    (h : i ∈ mergeRest op a b ys) : i ∈ ys := by
  induction ys generalizing b with
  | nil => exact absurd h (by simp [mergeRest])
  | cons y ys ih =>
    rcases mem_turn h with rfl | h
    · exact List.mem_cons_self
    · exact List.mem_cons_of_mem _ (ih h)

theorem mem_mergeAt {op : Bool → Bool → Bool} {x : Nat} {xs : List Nat} {a b : Bool}
    {rest : Bool → List Nat → List Nat} {i : Nat} {ys : List Nat}
    (hrest : ∀ b ys, i ∈ rest b ys → i ∈ xs ∨ i ∈ ys) (h : i ∈ mergeAt op x a rest b ys) :
    i ∈ x :: xs ∨ i ∈ ys := by
  induction ys generalizing b with
  | nil =>
    rcases mem_turn h with rfl | h
    · simp
    · rcases hrest _ _ h with h | h <;> simp [h]
  | cons y ys ih =>
    unfold mergeAt at h
    split at h
    · rcases mem_turn h with rfl | h
      · simp
      · rcases hrest _ _ h with h | h <;> simp [h]
    · split at h
      · rcases mem_turn h with rfl | h
        · simp
        · rcases ih h with h | h <;> simp [h]
      · rcases mem_turn h with rfl | h
        · simp
        · rcases hrest _ _ h with h | h <;> simp [h]

/-- Merging makes up no places. -/
theorem mem_merge {op : Bool → Bool → Bool} {xs ys : List Nat} {a b : Bool} {i : Nat}
    (h : i ∈ merge op xs a b ys) : i ∈ xs ∨ i ∈ ys := by
  induction xs generalizing a b ys with
  | nil => exact Or.inr (mem_mergeRest h)
  | cons x xs ih => exact mem_mergeAt (fun _ _ => ih) h

theorem pairwise_turn {before after : Bool} {k : Nat} {ks : List Nat}
    (above : ∀ i ∈ ks, k < i) (h : ks.Pairwise (· < ·)) :
    (turn before after k ks).Pairwise (· < ·) := by
  unfold turn
  split
  · exact h
  · exact List.pairwise_cons.2 ⟨above, h⟩

theorem pairwise_mergeRest {op : Bool → Bool → Bool} {a b : Bool} {ys : List Nat}
    (h : ys.Pairwise (· < ·)) : (mergeRest op a b ys).Pairwise (· < ·) := by
  induction ys generalizing b with
  | nil => exact List.Pairwise.nil
  | cons y ys ih =>
    obtain ⟨above, h⟩ := List.pairwise_cons.1 h
    exact pairwise_turn (fun i hi => above i (mem_mergeRest hi)) (ih h)

/-- Merging keeps the order. -/
theorem pairwise_merge {op : Bool → Bool → Bool} {xs ys : List Nat} {a b : Bool}
    (hx : xs.Pairwise (· < ·)) (hy : ys.Pairwise (· < ·)) :
    (merge op xs a b ys).Pairwise (· < ·) := by
  induction xs generalizing a b ys with
  | nil => exact pairwise_mergeRest hy
  | cons x xs ihx =>
    obtain ⟨hxs, hx⟩ := List.pairwise_cons.1 hx
    unfold merge
    induction ys generalizing b with
    | nil =>
      refine pairwise_turn (fun i hi => ?_) (ihx hx .nil)
      rcases mem_merge hi with hi | hi
      · exact hxs i hi
      · exact absurd hi List.not_mem_nil
    | cons y ys ihy =>
      have hy' := List.pairwise_cons.1 hy
      unfold mergeAt
      split
      · next hlt =>
        refine pairwise_turn (fun i hi => ?_) (ihx hx hy)
        rcases mem_merge hi with hi | hi
        · exact hxs i hi
        · rcases List.mem_cons.1 hi with rfl | hi
          · exact hlt
          · exact Nat.lt_trans hlt (hy'.1 i hi)
      · split
        · next hlt =>
          refine pairwise_turn (fun i hi => ?_) (ihy hy'.2)
          rcases (show i ∈ x :: xs ∨ i ∈ ys from mem_merge hi) with hi | hi
          · rcases List.mem_cons.1 hi with rfl | hi
            · exact hlt
            · exact Nat.lt_trans hlt (hxs i hi)
          · exact hy'.1 i hi
        · next hge hle =>
          obtain rfl : x = y := by omega
          refine pairwise_turn (fun i hi => ?_) (ihx hx hy'.2)
          rcases mem_merge hi with hi | hi
          · exact hxs i hi
          · exact hy'.1 i hi

theorem le_of_mem_ascend {lo i : Nat} {ks : List Nat} (h : i ∈ ascend lo ks) : lo ≤ i := by
  induction ks generalizing lo with
  | nil => exact absurd h (by simp [ascend])
  | cons k ks ih =>
    unfold ascend at h
    split at h
    · next hk =>
      rcases List.mem_cons.1 h with rfl | h
      · exact hk
      · exact Nat.le_trans hk (Nat.le_of_succ_le (ih h))
    · exact ih h

theorem pairwise_ascend (lo : Nat) (ks : List Nat) : (ascend lo ks).Pairwise (· < ·) := by
  induction ks generalizing lo with
  | nil => exact List.Pairwise.nil
  | cons k ks ih =>
    unfold ascend
    split
    · exact List.pairwise_cons.2 ⟨fun i hi => le_of_mem_ascend hi, ih _⟩
    · exact ih _

/-! ## Sets -/

/-- A set of characters. -/
structure CharSet where
  /-- The code points at which membership changes. -/
  changes : List Nat
  ascending : changes.Pairwise (· < ·)
  deriving DecidableEq

namespace CharSet

instance : Repr CharSet := ⟨fun s n => Repr.reprPrec s.changes n⟩

/-- Whether a character belongs to the set. -/
def contains (s : CharSet) (c : Char) : Bool := inside false s.changes c.toNat

/-- The set without members. -/
def empty : CharSet := ⟨[], .nil⟩

instance : Inhabited CharSet := ⟨empty⟩

/-- All characters: all code points but those of surrogates. -/
def all : CharSet := ⟨[0, 0xD800, 0xE000, 0x110000], by decide⟩

/-- The members that a combination of two memberships asks for.  It is meant for
combinations that leave out what is in neither set. -/
def combine (op : Bool → Bool → Bool) (s t : CharSet) : CharSet :=
  ⟨merge op s.changes false false t.changes, pairwise_merge s.ascending t.ascending⟩

/-- The members of either set. -/
def union : CharSet → CharSet → CharSet := combine (· || ·)

/-- The members of both sets. -/
def inter : CharSet → CharSet → CharSet := combine (· && ·)

/-- The members of the first set that are not in the second one. -/
def diff : CharSet → CharSet → CharSet := combine (· && !·)

/-- The members of exactly one of the sets. -/
def symmDiff : CharSet → CharSet → CharSet := combine Bool.xor

/-- The characters that are not in the set. -/
def compl (s : CharSet) : CharSet := all.diff s

/-- The unions of neighbours. -/
def unionPairs : List CharSet → List CharSet
  | s :: t :: sets => s.union t :: unionPairs sets
  | sets => sets

/-- The union of what is left after `rounds` rounds, each of which halves the list. -/
def unionRounds : (rounds : Nat) → List CharSet → CharSet
  | 0, sets => sets.foldr union empty
  | rounds + 1, sets => unionRounds rounds (unionPairs sets)

/-- The members of any of the sets. -/
def unionAll (sets : List CharSet) : CharSet := unionRounds sets.length.log2 sets

/-- The set with given places; what does not ascend is left out. -/
def ofChanges (ks : List Nat) : CharSet := inter all ⟨ascend 0 ks, pairwise_ascend 0 ks⟩

/-- The characters with code points from `lo` to `hi`, both included. -/
def codes (lo hi : Nat) : CharSet := if lo ≤ hi then ofChanges [lo, hi + 1] else empty

/-- The characters from one to another, both included. -/
def range (lo hi : Char) : CharSet := codes lo.toNat hi.toNat

/-- The set of one character. -/
def single (c : Char) : CharSet := range c c

/-- The union of intervals. -/
def ranges (bounds : List (Char × Char)) : CharSet :=
  unionAll (bounds.map fun (lo, hi) => range lo hi)

/-! ## Views -/

/-- The only member, of a set that has just one. -/
def single? (s : CharSet) : Option Char :=
  match s.changes with
  | [k, l] => if l = k + 1 then some (Char.ofNat k) else none
  | _ => none

/-- Whether all members are characters of ASCII. -/
def isAscii (s : CharSet) : Bool := s.changes.all (· ≤ 128)

/-- Pairs of neighbours in a list. -/
def pairs : List Nat → List (Nat × Nat)
  | k :: l :: ks => (k, l - 1) :: pairs ks
  | _ => []

/-- The maximal intervals of code points in the set, ends included. -/
def intervals (s : CharSet) : List (Nat × Nat) := pairs s.changes

/-! ## Sets from tables

A table of runs is a list of numbers `width * first + value`: from the code point
`first` up to the next entry every code point has the value `value`. -/

/-- The places at which a table of runs steps into or out of the values asked for. -/
def runChanges (width : Nat) (among : Nat → Bool) (state : Bool) : List Nat → List Nat
  | [] => if state then [0x110000] else []
  | run :: runs =>
    let next := among (run % width)
    turn state next (run / width) (runChanges width among next runs)

/-- The characters with one of the values asked for. -/
def ofRuns (width : Nat) (among : Nat → Bool) (runs : List Nat) : CharSet :=
  ofChanges (runChanges width among false runs)

end CharSet

end DataTree.Text
