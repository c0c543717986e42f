import Schemata.Json.Basic

/-!
# Merging documents

The documents of several files become one (`merge`): mappings are merged key by key and to any
depth, and every other value replaces what stood in its place. Keys keep the position of their first
appearance.
-/

namespace Schemata

namespace Json

mutual
/-- A document laid over another one. -/
def merge : Json → Json → Json
  | .object source, .object below => .object (mergeMembers source below)
  | source, _ => source
/-- Members laid over other members, one after the other. -/
def mergeMembers : List (String × Json) → List (String × Json) → List (String × Json)
  | [], below => below
  | (k, v) :: rest, below =>
    mergeMembers rest (put k ((below.lookup k).elim v (merge v)) below)
end

end Json

end Schemata
