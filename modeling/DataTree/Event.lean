import DataTree.Registry
import DataTree.Report

/-!
# DataTree.Event

What a tree tells about its work.  Operations that build or take down subtrees
announce their start and their success, and every change of the registry is
told; a failure is told only when whoever runs the tree asks for it.
-/

namespace DataTree

/-- Something that happened. -/
inductive Event where
  | instantiating (name : String)
  | instantiated (path : String) (size : Nat)
  | adding (list : String)
  | added (list key : String)
  | deleting (list key : String)
  | deleted (list key : String)
  | registered (path : String) (target : Target)
  | unregistered (path : String) (target : Target)
  | failed (op : String) (report : Report) (path : Option String)

namespace Event

/-- How important an event is. -/
def level : Event → String
  | registered _ _ | unregistered _ _ => "DEBUG"
  | failed _ _ _ => "ERROR"
  | _ => "INFO"

private def builder (op event : String) : List (String × String) :=
  [("component", "yangtree_core::tree"), ("op", op), ("event", event)]

private def lister (op event list : String) : List (String × String) :=
  [("component", "yangtree_core::tree::keyed_list"), ("op", op), ("event", event), ("path", list)]

/-- The named parts of an event. -/
def fields : Event → List (String × String)
  | instantiating name => builder "instantiate" "start" ++ [("yang_name", name)]
  | instantiated path size =>
    builder "instantiate" "end" ++ [("path", path), ("subtree_len", Numeral.natText size)]
  | adding list => lister "list_add" "start" list
  | added list key => lister "list_add" "end" list ++ [("key", key)]
  | deleting list key => lister "list_delete" "start" list ++ [("key", key)]
  | deleted list key => lister "list_delete" "end" list ++ [("key", key)]
  | registered path target =>
    [("event", "register"), ("path", path), ("target", target.outline)]
  | unregistered path target =>
    [("event", "unregister"), ("path", path), ("target", target.outline)]
  | failed op report path =>
    [("op", op), ("event", "end_error"), ("err_kind", report.kind.name),
      ("err_code", report.code)]
      ++ (match path with | some path => [("path", path)] | none => [])

/-- A named part of an event. -/
def field? (e : Event) (name : String) : Option String := Assoc.get? name e.fields

/-! ## Counting -/

/-- How often something was registered at a path, and how often dropped. -/
def traffic (events : List Event) (path : String) : Nat × Nat :=
  (events.countP fun | registered p _ => p == path | _ => false,
    events.countP fun | unregistered p _ => p == path | _ => false)

end Event

end DataTree
