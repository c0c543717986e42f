import Schemata.Model.Node

/-!
# Draining the pool of types

The first pass of ordering empties a pool of types: for each type in turn that is still there, its
dependencies leave the pool first, found by walking down the type's own tree, and then the type
itself. All entries of a name leave together, and one of them is kept.

* `Drain.take` (`take`) moves one name from the pool to the output;
* `Drain.emit` (`emit`) moves a node after everything it depends on;
* `drain` (`sort_types`) empties the pool, `firstOfEach` (`filter_types`) keeps each name once.
-/

namespace Schemata

/-- The pool of types still to be ordered, and the output so far. -/
structure Drain where
  /-- Types not yet moved. -/
  pool : List Node
  /-- Types moved, in order. -/
  sorted : List Node

namespace Drain

/-- The entry kept of those that share the name of `node`: the first that is no reference, else
`node` itself if it is none, else the first. -/
def chosen (node first : Node) (found : List Node) : Node :=
  match found.find? (fun n => !n.isRef) with
  | some n => n
  | none => if node.isRef then first else node

/-- The name of `node` moved from the pool to the output, if the pool holds it. -/
def take (s : Drain) (node : Node) : Drain :=
  match s.pool.filter (·.name = node.name) with
  | [] => s
  | first :: rest =>
    ⟨s.pool.filter (·.name ≠ node.name), s.sorted ++ [chosen node first (first :: rest)]⟩

mutual
/-- A node moved after everything it depends on. -/
def emit (s : Drain) : Node → Drain
  | ⟨h, .leaf spec⟩ => s.take ⟨h, .leaf spec⟩
  | ⟨h, .array item spec⟩ =>
    (if item.isNamed then emit s item else s).take ⟨h, .array item spec⟩
  | ⟨h, .dictionary key value d⟩ =>
    let s := if key.isNamed then emit s key else s
    let s := if value.isNamed then emit s value else s
    s.take ⟨h, .dictionary key value d⟩
  | ⟨h, .object fields d⟩ => (emitFields s fields).take ⟨h, .object fields d⟩
/-- The types of fields moved one after the other. -/
def emitFields (s : Drain) : List Field → Drain
  | [] => s
  | ⟨_, type⟩ :: rest => emitFields (emit s type) rest
end

/-- One entry of the pool as it was given: moved, unless its name has left the pool already. -/
def next (s : Drain) (t : Node) : Drain :=
  if s.pool.any (·.name = t.name) then s.emit t else s

end Drain

/-- Dependencies first, every name once. -/
def drain (types : List Node) : List Node := (types.foldl Drain.next ⟨types, []⟩).sorted

/-- The first type of each name not in `seen`. -/
def firstOfEachAux (seen : List String) : List Node → List Node
  | [] => []
  | t :: rest =>
    if seen.contains t.name then firstOfEachAux seen rest
    else t :: firstOfEachAux (t.name :: seen) rest

/-- The first type of each name. -/
def firstOfEach (types : List Node) : List Node := firstOfEachAux [] types

end Schemata
