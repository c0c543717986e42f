import Schemata.Order.Drain
import Schemata.Order.Reorder

/-!
# Ordering types

Types are drained from the pool with dependencies first, kept once per name, checked for cycles,
and moved until every dependency stands before its dependents (`order_types`).
-/

namespace Schemata

/-- Types with every dependency before its dependents, or the first dependency cycle. -/
def orderTypes (types : List Node) : Loaded (List Node × ReorderStats) :=
  let sorted := firstOfEach (drain types)
  match (TypeGraph.ofTypes sorted).cycles with
  | members :: _ => .fail (.cyclicDependency members)
  | [] => reorder sorted

end Schemata
