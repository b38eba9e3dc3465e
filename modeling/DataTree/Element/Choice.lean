import DataTree.Assoc
import DataTree.Schema

/-!
# DataTree.Element.Choice

The choices of a container.  A choice has cases, and a case has members, which
are children of the container.  At most one case is meant to hold data: assigning
to a member of one case unsets the members of the others, its *siblings*.
-/

namespace DataTree

/-- Choice, case, names of members; all in the order of declaration. -/
structure ChoiceTable where
  choices : List (String × List (String × List String)) := []

namespace ChoiceTable

def isEmpty (t : ChoiceTable) : Bool := t.choices.isEmpty

/-- Declare a member of a case. -/
def addMember (t : ChoiceTable) (case : Case) (member : String) : ChoiceTable :=
  ⟨Assoc.modify case.choice [] (Assoc.modify case.case [] (· ++ [member])) t.choices⟩

/-- The cases of a choice with their members; none if it is not declared here. -/
def cases (t : ChoiceTable) (choice : String) : List (String × List String) :=
  (Assoc.get? choice t.choices).getD []

/-- The members of all other cases of the active one's choice, each after its case. -/
def siblings (t : ChoiceTable) (active : Case) : List (String × String) :=
  ((t.cases active.choice).filter fun (case, _) => case ≠ active.case).flatMap
    fun (case, members) => members.map fun member => (case, member)

end ChoiceTable

end DataTree
