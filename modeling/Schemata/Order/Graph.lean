import Schemata.Model.Node

/-!
# The dependency graph of names

The vertices are the names of a list of types, each once and in order of first appearance. An edge
leads from a dependency to its dependent; names that are not in the list have no edges. Neighbours
are listed with the newest edge first.

Cycles are found in two passes over the graph: the vertices are listed by the time at which a
depth-first walk against the edges finishes them, and then, from the last finished to the first,
every vertex not yet reached collects what it reaches along the edges. A collection is a cycle when
it has several members, or one that depends on itself.

* `TypeGraph.ofTypes` (`build`) is the graph, with its neighbour lists `TypeGraph.dependencies` and
  `TypeGraph.dependents` (`dependencies`, `dependents`);
* `TypeGraph.components` (`kosaraju_scc`) lists the collections, `TypeGraph.cycles` (`cycles`) those
  that are cycles.
-/

namespace Schemata

/-- A graph of names. -/
structure TypeGraph where
  /-- The names, without repetition. -/
  names : List String
  /-- Edges from a dependency to its dependent, without repetition, the oldest first. -/
  edges : List (String × String)
deriving DecidableEq

namespace TypeGraph

/-! ## Construction -/

/-- A list with an element at the end, unless it is there already. -/
def insertNew {α : Type} [DecidableEq α] (xs : List α) (x : α) : List α :=
  if x ∈ xs then xs else xs ++ [x]

/-- The edges that a type adds: one from each of its dependencies that is in the list. -/
def edgesOf (names : List String) (t : Node) : List (String × String) :=
  (t.dependencies.filter fun d => names.contains d.name).map fun d => (d.name, t.name)

/-- The graph of a list of types. -/
def ofTypes (types : List Node) : TypeGraph :=
  let names := (types.map Node.name).foldl insertNew []
  ⟨names, (types.flatMap (edgesOf names)).foldl insertNew []⟩

/-! ## Neighbours -/

/-- Whether a name is a vertex. -/
def contains (g : TypeGraph) (name : String) : Bool := g.names.contains name

/-- The names that a name depends on, the newest edge first. -/
def dependencies (g : TypeGraph) (name : String) : List String :=
  ((g.edges.filter (·.2 = name)).map (·.1)).reverse

/-- The names that depend on a name, the newest edge first. -/
def dependents (g : TypeGraph) (name : String) : List String :=
  ((g.edges.filter (·.1 = name)).map (·.2)).reverse

/-! ## Depth-first walks -/

/-- The state of a walk: the names met, and those finished in order. -/
structure Walk where
  /-- Names met. -/
  seen : List String
  /-- Names finished, the first one first. -/
  finished : List String

/-- A walk from one name, if it has not been met: its neighbours first, the last of them first of
all, and then the name itself. `fuel` bounds the depth, which never exceeds the number of names. -/
def walk (next : String → List String) : Nat → Walk → String → Walk
  | 0, w, _ => w
  | fuel + 1, w, name =>
    if w.seen.contains name then w
    else
      let inner := (next name).reverse.foldl (walk next fuel) ⟨name :: w.seen, w.finished⟩
      ⟨inner.seen, inner.finished ++ [name]⟩

/-- The names by the time at which a walk against the edges finishes them. -/
def finishOrder (g : TypeGraph) : List String :=
  (g.names.foldl (walk g.dependencies (g.names.length + 1)) ⟨[], []⟩).finished

/-- The collections of the second pass, given the names met before it and those still to start
from. -/
def collect (g : TypeGraph) (seen : List String) : List String → List (List String)
  | [] => []
  | name :: rest =>
    if seen.contains name then collect g seen rest
    else
      let w := walk g.dependents (g.names.length + 1) ⟨seen, []⟩ name
      w.finished :: collect g w.seen rest

/-- The strongly connected components. -/
def components (g : TypeGraph) : List (List String) := g.collect [] g.finishOrder.reverse

/-! ## Cycles -/

/-- Whether a component is a cycle. -/
def isCycle (g : TypeGraph) : List String → Bool
  | [name] => g.edges.contains (name, name)
  | component => component.length > 1

/-- Names in increasing order. -/
def sortNames (names : List String) : List String := names.mergeSort fun a b => !decide (b < a)

/-- Every dependency cycle, its members in increasing order. -/
def cycles (g : TypeGraph) : List (List String) := (g.components.filter g.isCycle).map sortNames

end TypeGraph

end Schemata
