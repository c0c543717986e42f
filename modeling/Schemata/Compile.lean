import Schemata.Bind
import Schemata.Build.Constraints
import Schemata.Build.Entry
import Schemata.Handoff.RenderData
import Schemata.Order.Basic
import Schemata.Source.SourceSet
import Schemata.Validation.Validator

/-!
# Compiling a document

A merged document becomes render data in stages, each using all of what the one before it made:
validation, loading of types and elements, extraction of nested types, ordering, binding of
constraints. Diagnostics add up along the way.

* `Compile.stages` is the way from a document to render data;
* `Compile.document` (`compile_document`) validates a document first;
* `Compile.file` (`compile`) loads the document from files.
-/

namespace Schemata

/-- A compiled schema. -/
structure Compilation where
  /-- What renderers see. -/
  data : RenderData
  /-- Problems and notes, in order. -/
  diagnostics : Diagnostics
  /-- How much work ordering took. -/
  stats : ReorderStats

namespace Compile

/-- The declared types and the elements of a document. -/
def loadForest (document : Json) : Loaded Forest := do
  let types ← Entry.loadSection document "types"
  let elements ← Entry.loadSection document "elements"
  return ⟨types, elements⟩

/-- A forest with nested types made top-level; every new definition is noted. -/
def extract (forest : Forest) : Loaded Forest :=
  ⟨.ok forest.extract, forest.plan.diagnostics⟩

/-- A forest with constraints attached; bad entries and unresolved scopes are noted. -/
def bind (document : Json) (forest : Forest) : Loaded Forest :=
  let (constraints, malformed) := Constraint.loadSection document
  let bound := bindConstraints forest constraints
  ⟨.ok bound.forest, malformed ++ bound.diagnostics⟩

/-- The forest of a document after all stages, and how much work ordering took. -/
def stages (document : Json) : Loaded (Forest × ReorderStats) := do
  let loaded ← loadForest document
  let extracted ← extract loaded
  let (types, stats) ← orderTypes extracted.types
  let bound ← bind document { extracted with types := types }
  return (bound, stats)

/-- The compilation of a document, validated first if there is a validator. -/
def document (validator : Option Validator) (definition : String) (document : Json)
    (digest : Checksum) : Except SchemaError Compilation := do
  match validator with
  | some v => v.validate document
  | none => pure ()
  let loaded := stages document
  let (forest, stats) ← loaded.result
  return ⟨RenderData.build definition digest document forest, loaded.diagnostics, stats⟩

/-- The compilation of a file and everything it refers to. -/
def file (validator : Option Validator) (tree : FileTree) (searchPaths : List String)
    (definition : String) : Except SchemaError Compilation := do
  let (result, sources) := (SourceSet.empty searchPaths).load tree definition
  result
  document validator definition sources.document sources.digest.finish

end Compile

end Schemata
