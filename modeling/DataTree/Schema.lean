import DataTree.Assoc
import DataTree.Key
import DataTree.LeafList

/-!
# DataTree.Schema

Schemas: compiled descriptions of subtrees.  A node is a leaf, a leaf-list, a
container with named children, or a list with a key and the children of its
entries; it may declare a default value.  A child may belong to a case of a
choice of its container.

Children are declared one after another, and one that has the name of an earlier
one takes its place.  So in a schema as it is built, a `Blueprint`, no name is
declared twice side by side.
-/

namespace DataTree

/-- A case of a choice. -/
structure Case where
  choice : String
  case : String
  deriving DecidableEq, Repr

/-- A child of a container, described by a node of type `σ`. -/
structure Child (σ : Type) where
  name : String
  /-- The case that the child belongs to. -/
  case : Option Case
  node : σ

/-- A list: its key, the children of its entries, and whether entries keep their
order when others are deleted. -/
structure ListSchema (σ : Type) where
  key : KeySpec
  entry : List (Child σ)
  ordered : Bool

/-- A node and its default value. -/
inductive Schema where
  | leaf (type : LeafType) (default : Value)
  | leafList (type : LeafListType) (default : Value)
  | container (children : List (Child Schema)) (default : Value)
  | list (list : ListSchema Schema) (default : Value)

namespace Schema

/-- The default value that a node declares; an absent value if it declares none. -/
def default : Schema → Value
  | leaf _ v | leafList _ v | container _ v | list _ v => v

def isLeaf : Schema → Bool
  | leaf _ _ => true
  | _ => false

end Schema

/-- Declare a child: a name that is declared already keeps its place. -/
def declare {σ : Type} (child : Child σ) : List (Child σ) → List (Child σ)
  | [] => [child]
  | c :: cs => if c.name = child.name then child :: cs else c :: declare child cs

/-- The children that declaring one after another leaves. -/
def declareAll {σ : Type} (children : List (Child σ)) : List (Child σ) :=
  children.foldl (fun declared child => declare child declared) []

/-- The child of a name. -/
def findChild? {σ : Type} (name : String) (children : List (Child σ)) : Option (Child σ) :=
  children.find? fun c => c.name == name

/-! ## Names declared once -/

namespace Schema

mutual

/-- All names that are declared side by side in a schema differ. -/
def Distinct : Schema → Prop
  | leaf _ _ | leafList _ _ => True
  | container children _ => (children.map Child.name).Nodup ∧ AllDistinct children
  | list ⟨_, entry, _⟩ _ => (entry.map Child.name).Nodup ∧ AllDistinct entry

/-- The same for the nodes of several children. -/
def AllDistinct : List (Child Schema) → Prop
  | [] => True
  | ⟨_, _, node⟩ :: rest => Distinct node ∧ AllDistinct rest

end

/-- All names that are declared side by side differ, for the children of a
container or of an entry. -/
def DistinctChildren (children : List (Child Schema)) : Prop :=
  (children.map Child.name).Nodup ∧ AllDistinct children

theorem distinct_container {children : List (Child Schema)} {default : Value} :
    (container children default).Distinct ↔ DistinctChildren children := by
  rw [Distinct, DistinctChildren]

theorem distinct_list {entries : ListSchema Schema} {default : Value} :
    (list entries default).Distinct ↔ DistinctChildren entries.entry := by
  obtain ⟨key, entry, ordered⟩ := entries
  rw [Distinct, DistinctChildren]

theorem allDistinct_iff {children : List (Child Schema)} :
    AllDistinct children ↔ ∀ child ∈ children, child.node.Distinct := by
  induction children with
  | nil => simp [AllDistinct]
  | cons child rest ih =>
    obtain ⟨name, case, node⟩ := child
    rw [AllDistinct, ih, List.forall_mem_cons]

end Schema

section Declaring

variable {σ : Type}

/-- A child that is declared takes the place of the one with its name, or comes last. -/
theorem map_name_declare (child : Child σ) (children : List (Child σ)) :
    (declare child children).map Child.name =
      if child.name ∈ children.map Child.name then children.map Child.name
      else children.map Child.name ++ [child.name] := by
  induction children with
  | nil => rfl
  | cons c cs ih =>
    by_cases hc : c.name = child.name
    · simp [declare, hc]
    · simp only [declare, if_neg hc, List.map_cons, ih, List.mem_cons, Ne.symm hc, false_or]
      split <;> rfl

theorem mem_of_mem_declare {child c : Child σ} {children : List (Child σ)}
    (h : c ∈ declare child children) : c = child ∨ c ∈ children := by
  induction children with
  | nil => exact .inl (List.mem_singleton.1 h)
  | cons d ds ih =>
    rw [declare] at h
    split at h
    · exact (List.mem_cons.1 h).imp_right (List.mem_cons_of_mem d)
    · obtain rfl | h := List.mem_cons.1 h
      · exact .inr List.mem_cons_self
      · exact (ih h).imp_right (List.mem_cons_of_mem d)

/-- Declaring one after another declares every name once. -/
theorem nodup_declareAll (children : List (Child σ)) :
    ((declareAll children).map Child.name).Nodup := by
  suffices hfold : ∀ declared : List (Child σ), (declared.map Child.name).Nodup →
      ((children.foldl (fun declared child => declare child declared) declared).map
        Child.name).Nodup from hfold [] List.nodup_nil
  induction children with
  | nil => exact fun _ h => h
  | cons child rest ih =>
    intro declared h
    refine ih _ ?_
    rw [map_name_declare]
    split
    · exact h
    · next hnew =>
      refine List.nodup_append.2 ⟨h, by simp, fun a ha b hb heq => hnew ?_⟩
      rw [← List.mem_singleton.1 hb, ← heq]
      exact ha

theorem mem_of_mem_declareAll {c : Child σ} {children : List (Child σ)}
    (h : c ∈ declareAll children) : c ∈ children := by
  suffices hfold : ∀ declared : List (Child σ),
      c ∈ children.foldl (fun declared child => declare child declared) declared →
        c ∈ declared ∨ c ∈ children from (hfold [] h).resolve_left List.not_mem_nil
  clear h
  induction children with
  | nil => exact fun _ h => .inl h
  | cons child rest ih =>
    intro declared h
    obtain h | h := ih _ h
    · obtain rfl | h := mem_of_mem_declare h
      · exact .inr List.mem_cons_self
      · exact .inl h
    · exact .inr (List.mem_cons_of_mem child h)

end Declaring

/-- A schema as it is built: names that are declared side by side differ. -/
structure Blueprint where
  root : Schema
  distinct : root.Distinct

namespace Blueprint

instance : CoeOut Blueprint Schema := ⟨root⟩

/-- The children of a container or of the entries of a list, declared one after
another. -/
def declared (children : List (Child Blueprint)) : List (Child Schema) :=
  declareAll (children.map fun c => ⟨c.name, c.case, c.node.root⟩)

theorem distinctChildren_declared (children : List (Child Blueprint)) :
    Schema.DistinctChildren (declared children) := by
  refine ⟨nodup_declareAll _, Schema.allDistinct_iff.2 fun c hc => ?_⟩
  obtain ⟨child, -, rfl⟩ := List.mem_map.1 (mem_of_mem_declareAll hc)
  exact child.node.distinct

def leaf (type : LeafType) (default : Value := .empty) : Blueprint :=
  ⟨.leaf type default, by rw [Schema.Distinct]; trivial⟩

def leafList (type : LeafListType) (default : Value := .empty) : Blueprint :=
  ⟨.leafList type default, by rw [Schema.Distinct]; trivial⟩

def container (children : List (Child Blueprint)) (default : Value := .empty) : Blueprint :=
  ⟨.container (declared children) default,
    Schema.distinct_container.2 (distinctChildren_declared children)⟩

def list (entries : ListSchema Blueprint) (default : Value := .empty) : Blueprint :=
  ⟨.list { entries with entry := declared entries.entry } default,
    Schema.distinct_list.2 (distinctChildren_declared entries.entry)⟩

@[simp] theorem root_leaf (type : LeafType) (default : Value) :
    (leaf type default).root = .leaf type default := rfl

@[simp] theorem root_leafList (type : LeafListType) (default : Value) :
    (leafList type default).root = .leafList type default := rfl

@[simp] theorem root_container (children : List (Child Blueprint)) (default : Value) :
    (container children default).root = .container (declared children) default := rfl

@[simp] theorem root_list (entries : ListSchema Blueprint) (default : Value) :
    (list entries default).root =
      .list { entries with entry := declared entries.entry } default := rfl

end Blueprint

end DataTree
