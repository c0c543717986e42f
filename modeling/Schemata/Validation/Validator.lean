import Schemata.Error
import Schemata.FileTree.Basic
import Schemata.Validation.Reader
import Schemata.Yaml.Reader

/-!
# Validators

A validator is a meta-schema together with where it came from (`from_value`, `from_file`). It turns
the violations of a document into an error (`validate`).
-/

namespace Schemata

/-- A meta-schema and its origin. -/
structure Validator where
  /-- The path of the file, or a word for one given directly. -/
  origin : String
  /-- The meta-schema. -/
  schema : Schema

namespace Validator

/-- The validator of a meta-schema of known origin. -/
def ofJson (origin : String) (document : Json) : Except SchemaError Validator :=
  match Schema.ofJson? document with
  | .ok schema => .ok ⟨origin, schema⟩
  | .error complaint =>
    .error (.validation [s!"meta-schema {origin} is invalid: " ++ complaint.message])

/-- The validator of a meta-schema given directly. -/
def inline (document : Json) : Except SchemaError Validator := ofJson "<inline>" document

/-- The validator of the meta-schema in a file. -/
def ofFile (tree : FileTree) (path : String) : Except SchemaError Validator := do
  let some bytes := tree.read? path | .error .io
  let some document := Yaml.read? bytes | .error .yaml
  ofJson path document

/-- Nothing for an acceptable document, all violations for any other. -/
def validate (v : Validator) (document : Json) : Except SchemaError Unit :=
  match v.schema.violations document with
  | [] => .ok ()
  | violations => .error (.validation (violations.map Violation.render))

end Validator

end Schemata
