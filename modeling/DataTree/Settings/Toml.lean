import DataTree.Assoc

/-!
# DataTree.Settings.Toml

Documents of TOML as tables of items, and the rules by which the lines of a
document build them up.

A table remembers how it came about, because that decides what may still be added
to it: a header opens a table once, and may open one that so far was only passed
through; dotted keys extend only tables that dotted keys made; a table in braces is
complete.
-/

namespace DataTree.Toml

/-- How a table came about. -/
inductive Origin
  /-- On the way to a table that a header named. -/
  | passed
  /-- By a header. -/
  | header
  /-- By dotted keys. -/
  | dotted
  /-- In braces. -/
  | braces
  deriving DecidableEq, Repr

/-- A value of a document.  Numbers, dates and times are not told apart. -/
inductive Item where
  | text (s : String)
  | bool (b : Bool)
  | number
  | array (items : List Item)
  | table (origin : Origin) (entries : List (String × Item))
  /-- The tables under a doubled header. -/
  | tables (each : List (List (String × Item)))

/-- The entries of a table. -/
abbrev Entries := List (String × Item)

/-- Enter a key that must be new. -/
def enter? (key : String) (item : Item) (t : Entries) : Option Entries :=
  if Assoc.contains key t then none else some (Assoc.insert key item t)

/-- Go down along the keys of a header and change the table there. -/
def underHeader? (f : Entries → Option Entries) : List String → Entries → Option Entries
  | [], t => f t
  | key :: keys, t =>
    match Assoc.get? key t with
    | none => (underHeader? f keys []).map fun sub => Assoc.insert key (.table .passed sub) t
    | some (.table .braces _) => none
    | some (.table origin sub) =>
      (underHeader? f keys sub).map fun sub => Assoc.insert key (.table origin sub) t
    | some (.tables each) =>
      (underHeader? f keys (each.getLastD [])).map fun sub =>
        Assoc.insert key (.tables (each.dropLast ++ [sub])) t
    | some _ => none

/-- Open a table with a header. -/
def openTable? (path : List String) (t : Entries) : Option Entries :=
  match path.getLast? with
  | none => none
  | some key =>
    underHeader? (fun parent =>
      match Assoc.get? key parent with
      | none => some (Assoc.insert key (.table .header []) parent)
      | some (.table .passed sub) => some (Assoc.insert key (.table .header sub) parent)
      | some _ => none) path.dropLast t

/-- Open one more table with a doubled header. -/
def openOneMore? (path : List String) (t : Entries) : Option Entries :=
  match path.getLast? with
  | none => none
  | some key =>
    underHeader? (fun parent =>
      match Assoc.get? key parent with
      | none => some (Assoc.insert key (.tables [[]]) parent)
      | some (.tables each) => some (Assoc.insert key (.tables (each ++ [[]])) parent)
      | some _ => none) path.dropLast t

/-- Enter an item under a dotted key. -/
def enterDotted? (item : Item) : List String → Entries → Option Entries
  | [], _ => none
  | [key], t => enter? key item t
  | key :: keys, t =>
    match Assoc.get? key t with
    | none => (enterDotted? item keys []).map fun sub => Assoc.insert key (.table .dotted sub) t
    | some (.table .dotted sub) =>
      (enterDotted? item keys sub).map fun sub => Assoc.insert key (.table .dotted sub) t
    | some _ => none

/-- Enter an item under a dotted key of the table that a header opened. -/
def enterUnder? (header keys : List String) (item : Item) (t : Entries) : Option Entries :=
  underHeader? (enterDotted? item keys) header t

end DataTree.Toml
