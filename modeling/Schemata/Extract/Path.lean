import Schemata.Model.Node

/-!
# Places in a type forest

A place is a tree of the forest and a path of steps down from its root. `Node.at?` follows a path,
`Node.renameAt?` changes the name of the node at its end (`node_at_mut`); both answer nothing for a
path that leaves the tree.
-/

namespace Schemata

/-- A tree of the forest: a declared type or an element, by position. -/
inductive Root where
  /-- A declared type. -/
  | type (index : Nat)
  /-- An element. -/
  | element (index : Nat)
deriving DecidableEq, Inhabited

/-- A step from a node to one of its children. -/
inductive Step where
  /-- The type of the field at a position. -/
  | field (index : Nat)
  /-- The item type of an array. -/
  | item
  /-- The key type of a dictionary. -/
  | key
  /-- The value type of a dictionary. -/
  | value
deriving DecidableEq, Inhabited

namespace Node

/-- The node one step down. -/
def child? (n : Node) (step : Step) : Option Node :=
  match step, n.kind with
  | .field i, .object fields _ => fields[i]?.map (·.type)
  | .item, .array item _ => some item
  | .key, .dictionary key _ _ => some key
  | .value, .dictionary _ value _ => some value
  | _, _ => none

/-- The node with another node one step down; unchanged where the step leads nowhere. -/
def withChild (n : Node) (step : Step) (child : Node) : Node :=
  match step, n with
  | .field i, ⟨h, .object fields d⟩ =>
    ⟨h, .object (fields.modify i fun f => ⟨f.head, child⟩) d⟩
  | .item, ⟨h, .array _ s⟩ => ⟨h, .array child s⟩
  | .key, ⟨h, .dictionary _ value d⟩ => ⟨h, .dictionary child value d⟩
  | .value, ⟨h, .dictionary key _ d⟩ => ⟨h, .dictionary key child d⟩
  | _, n => n

/-- The node at the end of a path. -/
def at? (n : Node) : List Step → Option Node
  | [] => some n
  | step :: rest => (n.child? step).bind fun child => child.at? rest

/-- The tree with another name for the node at the end of a path. -/
def renameAt? (n : Node) (path : List Step) (name : String) : Option Node :=
  match path with
  | [] => some (n.rename name)
  | step :: rest => do
    let child ← n.child? step
    return n.withChild step (← child.renameAt? rest name)

end Node

end Schemata
