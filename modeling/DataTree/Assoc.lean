/-!
# DataTree.Assoc

Tables from names to values that remember the order in which names were first
entered.  A table is a list of pairs; the functions of this module never enter
a name twice.

* `insert` gives a present name its new value in its old place and appends a new
  name;
* `erase` keeps the order of the others;
* `swapErase` moves the last pair into the gap, for tables whose order does not
  matter.
-/

namespace DataTree.Assoc

variable {α : Type}

/-- The value of a name. -/
def get? (k : String) : List (String × α) → Option α
  | [] => none
  | (name, v) :: rest => if name = k then some v else get? k rest

/-- Whether the table has the name. -/
def contains (k : String) (t : List (String × α)) : Bool := (get? k t).isSome

/-- The names in order. -/
def keys (t : List (String × α)) : List String := t.map Prod.fst

/-- Give a name a value. -/
def insert (k : String) (v : α) : List (String × α) → List (String × α)
  | [] => [(k, v)]
  | (name, w) :: rest => if name = k then (k, v) :: rest else (name, w) :: insert k v rest

/-- Change the value of a name, starting from `default` where the name is new. -/
def modify (k : String) (default : α) (f : α → α) (t : List (String × α)) : List (String × α) :=
  insert k (f ((get? k t).getD default)) t

/-- Forget a name; the others keep their order. -/
def erase (k : String) (t : List (String × α)) : List (String × α) := t.filter fun e => e.1 ≠ k

/-- Forget a name; the last pair takes its place. -/
def swapErase (k : String) (t : List (String × α)) : List (String × α) :=
  match t.getLast? with
  | none => t
  | some last =>
    if last.1 = k then t.dropLast
    else if contains k t then t.dropLast.map fun e => if e.1 = k then last else e
    else t

/-- The table that entering the pairs one after another leaves. -/
def ofList (pairs : List (String × α)) : List (String × α) :=
  pairs.foldl (fun t e => insert e.1 e.2 t) []

/-! ## What the operations do to the values -/

@[simp] theorem get?_nil (k : String) : get? k ([] : List (String × α)) = none := rfl

@[simp] theorem get?_insert_self (k : String) (v : α) (t : List (String × α)) :
    get? k (insert k v t) = some v := by
  induction t with
  | nil => simp [insert, get?]
  | cons e rest ih =>
    obtain ⟨name, w⟩ := e
    by_cases h : name = k <;> simp [insert, get?, h, ih]

theorem get?_insert_of_ne {k k' : String} (h : k' ≠ k) (v : α) (t : List (String × α)) :
    get? k' (insert k v t) = get? k' t := by
  induction t with
  | nil => simp [insert, get?, h.symm]
  | cons e rest ih =>
    obtain ⟨name, w⟩ := e
    by_cases hn : name = k
    · simp [insert, get?, hn, h.symm]
    · by_cases hk : name = k'
      · subst hk; simp [insert, get?, hn]
      · simp [insert, get?, hn, hk, ih]

theorem get?_erase_self (k : String) (t : List (String × α)) : get? k (erase k t) = none := by
  induction t with
  | nil => rfl
  | cons e rest ih =>
    obtain ⟨name, w⟩ := e
    by_cases h : name = k
    · simpa [erase, h] using ih
    · simpa [erase, h, get?] using ih

theorem get?_erase_of_ne {k k' : String} (h : k' ≠ k) (t : List (String × α)) :
    get? k' (erase k t) = get? k' t := by
  induction t with
  | nil => rfl
  | cons e rest ih =>
    obtain ⟨name, w⟩ := e
    by_cases hn : name = k
    · subst hn
      simpa [erase, get?, h.symm] using ih
    · by_cases hk : name = k'
      · subst hk; simp [erase, hn, get?]
      · simpa [erase, hn, get?, hk] using ih

/-- A name that is present keeps its place; a new one comes last. -/
theorem keys_insert (k : String) (v : α) (t : List (String × α)) :
    keys (insert k v t) = if contains k t then keys t else keys t ++ [k] := by
  induction t with
  | nil => rfl
  | cons e rest ih =>
    obtain ⟨name, w⟩ := e
    by_cases h : name = k
    · simp [insert, keys, contains, get?, h]
    · simp only [insert, h, if_false, keys, List.map_cons, contains, get?] at ih ⊢
      rw [ih]
      split <;> simp_all

end DataTree.Assoc
