import DataTree.Error
import DataTree.Schema
import DataTree.Settings.TomlReader

/-!
# DataTree.Settings.Basic

Settings: a section `logging` with a profile and a filter, and a section `lists`
that says whether lists keep the order of their entries by default.

    [logging]
    profile = "production"
    filter = "yangtree=warn"

    [lists]
    ordered_by_default = true

Every section and every key may be left out, nothing else may be there.  A section
may also be an array of the values of its keys in order, and a profile a table
whose only key is its name.
-/

namespace DataTree

/-- What a tree is run for. -/
inductive Profile
  | development | production | test
  deriving DecidableEq, Repr

namespace Profile

/-- The name of a profile. -/
def name : Profile → String
  | development => "development"
  | production => "production"
  | test => "test"

/-- A profile by its name. -/
def named? : String → Option Profile
  | "development" => some development
  | "production" => some production
  | "test" => some test
  | _ => none

/-- Which events a profile lets through where the settings do not say. -/
def defaultFilter : Profile → String
  | development => "yangtree=debug"
  | production => "yangtree=info"
  | test => "off"

end Profile

/-- The settings. -/
structure Settings where
  profile : Profile := .development
  /-- Which events are let through. -/
  filterKey : Option String := none
  orderedByDefault : Bool := false
  deriving DecidableEq, Repr

namespace Settings

/-! ## From documents -/

/-- A value without content. -/
def isVoid : Toml.Item → Bool
  | .table _ [] | .array [] | .tables [] => true
  | _ => false

/-- A profile as a string, or as the only key of a table. -/
def profileOf? : Toml.Item → Option Profile
  | .text s => Profile.named? s
  | .table _ [(name, item)] => if isVoid item then Profile.named? name else none
  | _ => none

def textOf? : Toml.Item → Option String
  | .text s => some s
  | _ => none

def boolOf? : Toml.Item → Option Bool
  | .bool b => some b
  | _ => none

/-- Set one key of the section `logging`. -/
def setLogging? (s : Settings) (key : String) (item : Toml.Item) : Option Settings :=
  match key with
  | "profile" => (profileOf? item).map fun profile => { s with profile }
  | "filter" => (textOf? item).map fun filter => { s with filterKey := some filter }
  | _ => none

/-- Set one key of the section `lists`. -/
def setLists? (s : Settings) (key : String) (item : Toml.Item) : Option Settings :=
  match key with
  | "ordered_by_default" => (boolOf? item).map fun ordered =>
      { s with orderedByDefault := ordered }
  | _ => none

/-- The pairs of a section whose keys in order are `keys`. -/
def pairsOf? (keys : List String) : Toml.Item → Option (List (String × Toml.Item))
  | .table _ entries => some entries
  | .array items => some (keys.zip items)
  | .tables each => some (keys.zip (each.map (.table .header)))
  | _ => none

/-- Set one section. -/
def setSection? (s : Settings) (name : String) (item : Toml.Item) : Option Settings :=
  match name with
  | "logging" => do
    (← pairsOf? ["profile", "filter"] item).foldlM (fun s (key, item) => s.setLogging? key item) s
  | "lists" => do
    (← pairsOf? ["ordered_by_default"] item).foldlM (fun s (key, item) => s.setLists? key item) s
  | _ => none

/-- The settings that a text describes. -/
def read (text : String) : Except Error Settings :=
  let settings? := (Toml.read? text.toList).bind fun entries =>
    entries.foldlM (fun s (name, item) => s.setSection? name item) {}
  match settings? with
  | some s => .ok s
  | none => .error (.invalidSettings "unreadable settings")

/-! ## What follows from them -/

/-- Which events are let through. -/
def filter (s : Settings) : String := s.filterKey.getD s.profile.defaultFilter

/-- Whether the settings are those of an empty text. -/
def isDefault (s : Settings) : Bool := s == {}

/-- A list with the default order. -/
def listSchema (s : Settings) (statement : String) (entry : List (Child Schema)) :
    ListSchema Schema :=
  ⟨KeySpec.ofText statement, entry, s.orderedByDefault⟩

end Settings

end DataTree
