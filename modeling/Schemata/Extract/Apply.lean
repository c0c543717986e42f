import Schemata.Diagnostic.Basic
import Schemata.Extract.Plan

/-!
# Carrying out a plan

Renames are carried out one after the other, and one that leads nowhere is passed over; then the
new definitions follow the declared types (`apply`). `Forest.extract` plans and carries out in one
go (`extract_nested_types`).
-/

namespace Schemata

/-- A type forest: declared types and elements. -/
structure Forest where
  /-- The declared types. -/
  types : List Node
  /-- The elements. -/
  elements : List Node
deriving DecidableEq

namespace Forest

/-- A list of trees with another name for one node. -/
def renameIn (trees : List Node) (index : Nat) (path : List Step) (name : String) : List Node :=
  match trees[index]?.bind (·.renameAt? path name) with
  | some tree => trees.set index tree
  | none => trees

/-- The forest with another name for one node. -/
def rename (f : Forest) (r : Rename) : Forest :=
  match r.root with
  | .type i => { f with types := renameIn f.types i r.path r.name }
  | .element i => { f with elements := renameIn f.elements i r.path r.name }

/-- The forest with the renames carried out in order. -/
def renameAll (f : Forest) (renames : List Rename) : Forest := renames.foldl rename f

/-- The forest after a plan. -/
def apply (f : Forest) (p : Plan) : Forest :=
  let renamed := f.renameAll p.renames
  { renamed with types := renamed.types ++ p.hoisted.map (·.node) }

/-- The plan for a forest. -/
def plan (f : Forest) : Plan := Plan.make f.types f.elements

/-- The forest with nested types made top-level. -/
def extract (f : Forest) : Forest := f.apply f.plan

end Forest

/-- What a plan records: one note for each new definition. -/
def Plan.diagnostics (p : Plan) : Diagnostics :=
  p.hoisted.map fun h => .hoisted h.node.name h.origin

end Schemata
