import Schemata.Error
import Schemata.FileTree.Basic
import Schemata.Validation.Validator

/-!
# Configuration

The settings of a run: where schema files are looked up, whether and by what documents are
validated, and how the handoff is written.

* `Config.toJson` and `Config.ofJson?` write and read a configuration as a document value;
* `Config.metaSchemaPath` (`meta_schema_candidates`, `meta_schema_path`) finds the meta-schema, and
  `Config.validator` reads it.
-/

namespace Schemata

/-- The settings of a run. -/
structure Config where
  /-- Directories in which schema files are looked for, in order. -/
  searchPaths : List String := ["definition"]
  /-- Whether documents are validated before they are compiled. -/
  validates : Bool := true
  /-- The file of the meta-schema. -/
  metaSchema : String := "definition.schema.json"
  /-- Whether the handoff is written over several lines. -/
  pretty : Bool := true
deriving DecidableEq

namespace Config

/-! ## Document values -/

/-- The configuration as a document value. -/
def toJson (c : Config) : Json :=
  .object [("loader", .object [("search_paths", .strings c.searchPaths)]),
    ("validation", .object [("enabled", .bool c.validates),
      ("meta_schema", .string c.metaSchema)]),
    ("output", .object [("pretty", .bool c.pretty)])]

/-- The values of given members, by key from a mapping or by position from a sequence, which must
not be longer. -/
def membersOf? (keys : List String) : Json → Option (List (Option Json))
  | .object members => some (keys.map fun k => members.lookup k)
  | .array items =>
    if items.length ≤ keys.length then some (keys.mapIdx fun i _ => items[i]?) else none
  | _ => none

/-- A value read where there is one, and a default where there is none. -/
def readOr {α : Type} (default : α) (read : Json → Option α) : Option Json → Option α
  | none => some default
  | some v => read v

/-- A sequence of texts. -/
def textsOf? (value : Json) : Option (List String) := value.items?.bind (·.mapM Json.string?)

/-- The configuration with the search paths that a document value gives. -/
def readLoader (c : Config) (value : Json) : Option Config := do
  match ← membersOf? ["search_paths"] value with
  | [paths] => return { c with searchPaths := ← readOr c.searchPaths textsOf? paths }
  | _ => none

/-- The configuration with the validation that a document value gives. -/
def readValidation (c : Config) (value : Json) : Option Config := do
  match ← membersOf? ["enabled", "meta_schema"] value with
  | [enabled, metaSchema] =>
    let validates ← readOr c.validates Json.bool? enabled
    let metaSchema ← readOr c.metaSchema Json.string? metaSchema
    return { c with validates := validates, metaSchema := metaSchema }
  | _ => none

/-- The configuration with the output that a document value gives. -/
def readOutput (c : Config) (value : Json) : Option Config := do
  match ← membersOf? ["pretty"] value with
  | [pretty] => return { c with pretty := ← readOr c.pretty Json.bool? pretty }
  | _ => none

/-- The configuration that a document value spells. What it leaves out is the default. -/
def ofJson? (value : Json) : Option Config := do
  match ← membersOf? ["loader", "validation", "output"] value with
  | [loader, validation, output] =>
    let c : Config := {}
    let c ← readOr c c.readLoader loader
    let c ← readOr c c.readValidation validation
    readOr c c.readOutput output
  | _ => none

/-! ## The meta-schema -/

/-- Where the meta-schema is looked for: at its path, in the directory `schema`, and in that of the
user. An absolute path is the only place. -/
def metaSchemaCandidates (c : Config) (userDirectory : String) : List String :=
  if Path.isAbsolute c.metaSchema then [c.metaSchema]
  else [c.metaSchema, Path.join "schema" c.metaSchema,
    Path.join (Path.join userDirectory "schema") c.metaSchema]

/-- The first place at which there is a meta-schema. -/
def metaSchemaPath (c : Config) (tree : FileTree) (userDirectory : String) :
    Except SchemaError String :=
  let places := c.metaSchemaCandidates userDirectory
  match places.find? tree.isFile with
  | some path => .ok path
  | none => .error (.fileNotFound c.metaSchema places)

/-- The validator that the configuration asks for, if it asks for one. -/
def validator (c : Config) (tree : FileTree) (userDirectory : String) :
    Except SchemaError (Option Validator) := do
  if c.validates then
    return some (← Validator.ofFile tree (← c.metaSchemaPath tree userDirectory))
  else return none

end Config

end Schemata
