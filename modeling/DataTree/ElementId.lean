import DataTree.Numeral

/-!
# DataTree.ElementId

Names of elements.  An element is named by the number of the slot it occupies,
and a slot is never used twice: the name of a removed element stays free for
ever.
-/

namespace DataTree

/-- The number of an element's slot. -/
structure ElementId where
  index : Nat
  deriving DecidableEq, Repr, Inhabited

namespace ElementId

/-- An id in messages. -/
def text (id : ElementId) : String := "#" ++ Numeral.natText id.index

/-- An id in logs. -/
def outline (id : ElementId) : String := "ElementId(" ++ Numeral.natText id.index ++ ")"

/-- Ids are ordered by slot. -/
def cmp (a b : ElementId) : Ordering := compare a.index b.index

end ElementId

end DataTree
