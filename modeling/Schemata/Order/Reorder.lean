import Schemata.Build.Loaded
import Schemata.Order.Graph

/-!
# Moving dependencies in front

The last pass of ordering scans a fixed list of dependencies again and again. A dependency found
behind its dependent is moved to just before it, and the pass ends with a scan that moves nothing.
A list that has not come to rest after as many scans as the square of its length, and two more,
never does.

* `Reorder.scan` is one scan;
* `Reorder.settle` repeats it;
* `reorder` (`reorder_types`) is the pass with its moves as notes.
-/

namespace Schemata

/-- A type moved from one position to another. -/
structure Move where
  /-- The name of the type. -/
  name : String
  /-- Where it was. -/
  source : Nat
  /-- Where it went. -/
  target : Nat
deriving DecidableEq

/-- How much work the pass did. -/
structure ReorderStats where
  /-- Scans, the last one included. -/
  scans : Nat
  /-- Moves. -/
  moves : Nat
deriving DecidableEq

namespace Reorder

/-- The dependencies of a list of types: each dependent with the name of what it depends on. -/
def edges (types : List Node) : List (String × String) :=
  types.flatMap fun t => t.dependencies.map fun d => (t.name, d.name)

/-- The position of the first type of a name. -/
def position (types : List Node) (name : String) : Option Nat :=
  types.findIdx? (·.name = name)

/-- A list with the element at `source` moved to `target`. -/
def moveTo (types : List Node) (source target : Nat) : List Node :=
  match types[source]? with
  | some t => (types.eraseIdx source).insertIdx target t
  | none => types

/-- The move that a dependency asks for: none when either name is missing or the order is right
already. -/
def moveFor? (types : List Node) (edge : String × String) : Option Move :=
  match position types edge.1, position types edge.2 with
  | some a, some b => if b ≤ a then none else some ⟨edge.2, b, a⟩
  | _, _ => none

/-- One dependency of a scan, on the types and the moves made so far, the latest first. -/
def step (s : List Node × List Move) (edge : String × String) : List Node × List Move :=
  match moveFor? s.1 edge with
  | some m => (moveTo s.1 m.source m.target, m :: s.2)
  | none => s

/-- One scan: the types after it, and its moves in order. -/
def scan (edges : List (String × String)) (types : List Node) : List Node × List Move :=
  let (types, moves) := edges.foldl step (types, [])
  (types, moves.reverse)

/-- What the scans came to. -/
structure Outcome where
  /-- The types at the end. -/
  types : List Node
  /-- How many scans there were. -/
  scans : Nat
  /-- All moves in order. -/
  moves : List Move
  /-- The last scan moved nothing. -/
  settled : Bool

/-- At most `fuel` scans, until one moves nothing. -/
def settle (edges : List (String × String)) : Nat → List Node → Outcome
  | 0, types => ⟨types, 0, [], false⟩
  | fuel + 1, types =>
    let (next, moves) := scan edges types
    if moves.isEmpty then ⟨next, 1, [], true⟩
    else
      let rest := settle edges fuel next
      ⟨rest.types, rest.scans + 1, moves ++ rest.moves, rest.settled⟩

/-- The largest number of scans. -/
def limit (types : List Node) : Nat := types.length * types.length + 2

/-- Every name that occurs in a dependency, in increasing order. -/
def namesOf (edges : List (String × String)) : List String :=
  TypeGraph.sortNames ((edges.flatMap fun (a, b) => [a, b]).foldl TypeGraph.insertNew [])

/-- The scans over the dependencies of a list of types. -/
def run (types : List Node) : Outcome := settle (edges types) (limit types) types

end Reorder

/-- The pass over a list of types: the types in their new order, or the failure to come to rest;
every move is noted. -/
def reorder (types : List Node) : Loaded (List Node × ReorderStats) :=
  let outcome := Reorder.run types
  ⟨if outcome.settled then .ok (outcome.types, ⟨outcome.scans, outcome.moves.length⟩)
    else .error (.cyclicDependency (Reorder.namesOf (Reorder.edges types))),
    outcome.moves.map fun m => .relocated m.name m.source m.target⟩

end Schemata
