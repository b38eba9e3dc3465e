import DataTree.Error
import DataTree.Text.Blank

/-!
# DataTree.Key

Keys of lists.  A key statement names the key leaves of a list; without any the
list is keyless.  The key of an entry gives each of them its part: the whole text
where there is one leaf, and the stretches between single spaces where there are
several.

The path of an entry ends in a predicate made of the parts, `[name=eth0]` for one
leaf and `[a='1' b='2']` for several.
-/

namespace DataTree

/-- The key leaves of a list, in the order of declaration. -/
structure KeySpec where
  fields : List String
  deriving DecidableEq, Repr

namespace KeySpec

/-- Read a key statement: names separated by blanks. -/
def ofText (statement : String) : KeySpec :=
  ⟨(Text.words statement.toList).map String.ofList⟩

def isKeyless (k : KeySpec) : Bool := k.fields.isEmpty

/-- The parts of a key, one for each leaf of the list at the path `list`. -/
def split (k : KeySpec) (list key : String) : Except Error (List String) :=
  match k.fields with
  | [_] => .ok [key]
  | fields =>
    let parts := (Text.pieces (· == ' ') key.toList).map String.ofList
    if parts.length = fields.length then .ok parts else .error (.keyArity list fields key)

/-- The predicate that stands for the parts of a key. -/
def predicate (k : KeySpec) (parts : List String) : String :=
  match k.fields, parts with
  | [field], [part] => "[" ++ field ++ "=" ++ part ++ "]"
  | fields, parts =>
    let pairs := List.zipWith (fun field part => field ++ "='" ++ part ++ "'") fields parts
    "[" ++ " ".intercalate pairs ++ "]"

/-- Every leaf gets a part. -/
theorem length_of_split {k : KeySpec} {list key : String} {parts : List String}
    (h : k.split list key = .ok parts) : parts.length = k.fields.length := by
  unfold split at h
  split at h
  · next hf =>
    obtain rfl := Except.ok.inj h
    simp [hf]
  · next fields _ =>
    simp only at h
    split at h
    · next hlen =>
      obtain rfl := Except.ok.inj h
      exact hlen
    · cases h

end KeySpec

end DataTree
