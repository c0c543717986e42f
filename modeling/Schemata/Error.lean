import Schemata.Json.Printer

/-!
# Fatal errors

Everything here ends a compilation: the schema is invalid and no part of its type forest can be
used. Problems that a compilation survives are diagnostics instead.
-/

namespace Schemata

/-- What is wrong with the declaration of a type. -/
inductive Defect where
  /-- The `type` word is no tag. -/
  | unrecognizedType (found : Json)
  /-- A key that holds a number holds something else. -/
  | notNumber (key : String) (found : Json)
  /-- A key that holds a count holds something else. -/
  | notCount (key : String) (found : Json)
  /-- A base of literals that does not fit 32 bits. -/
  | baseOutOfRange (base : Nat)
  /-- A key that holds a text holds something else. -/
  | notText (key : String) (found : Json)
  /-- The metadata is not a mapping. -/
  | xmlNotMapping
  /-- A literal of an enumeration is not a scalar. -/
  | literalNotScalar (found : Json)
  /-- The literals of an enumeration are not a sequence. -/
  | enumNotSequence
  /-- A reference is not a text. -/
  | referenceNotText
  /-- The fields of an object are not a mapping. -/
  | propertiesNotMapping
deriving DecidableEq

/-- The wording of a defect. -/
def Defect.message : Defect → String
  | .unrecognizedType found => s!"unrecognized type {found.compact}"
  | .notNumber key found => s!"\"{key}\" must be a number, got {found.compact}"
  | .notCount key found => s!"\"{key}\" must be a non-negative integer, got {found.compact}"
  | .baseOutOfRange base => s!"base {base} is out of range"
  | .notText key found => s!"\"{key}\" must be a string, got {found.compact}"
  | .xmlNotMapping => "\"xml\" must be a mapping"
  | .literalNotScalar found => s!"enum literal {found.compact} is not a scalar"
  | .enumNotSequence => "\"enum\" must be a sequence"
  | .referenceNotText => "\"$ref\" must be a string"
  | .propertiesNotMapping => "\"properties\" must be a mapping"

/-- Why a compilation ended. -/
inductive SchemaError where
  /-- No candidate for a file exists. -/
  | fileNotFound (path : String) (searched : List String)
  /-- A reference is neither local nor to a file. -/
  | unsupportedReference (reference : String)
  /-- A reference leads to nothing. -/
  | unresolvedReference (pointer : String)
  /-- A reference leads back to itself. -/
  | cyclicReference (chain : List String)
  /-- An array has no item type. -/
  | unresolvedItemType (name : String)
  /-- A dictionary has no key type. -/
  | unresolvedKeyType (name : String)
  /-- A dictionary has no value type. -/
  | unresolvedValueType (name : String)
  /-- A declaration is wrong. -/
  | malformedType (name : String) (defect : Defect)
  /-- A section is not a mapping. -/
  | invalidSection (name : String)
  /-- Types depend on each other in a circle. -/
  | cyclicDependency (members : List String)
  /-- The document does not satisfy the meta-schema, or the meta-schema is no schema. -/
  | validation (violations : List String)
  /-- A file could not be read or written. -/
  | io
  /-- A text is not YAML, or not of the form asked for. -/
  | yaml
deriving DecidableEq

namespace SchemaError

/-- The wording of an error; errors of the file system and of the reader of documents have a
heading only. -/
def message : SchemaError → String
  | .fileNotFound path searched =>
    s!"File not found: {path} (searched: " ++ ", ".intercalate searched ++ ")"
  | .unsupportedReference reference =>
    s!"Unsupported reference: '{reference}' (only local and file references are supported)"
  | .unresolvedReference pointer =>
    s!"Unresolved reference: '{pointer}' does not name an entry of the schema"
  | .cyclicReference chain => "Cyclic reference: " ++ " -> ".intercalate chain
  | .unresolvedItemType name => s!"Could not resolve item type of '{name}'"
  | .unresolvedKeyType name => s!"Could not resolve key type of '{name}'"
  | .unresolvedValueType name => s!"Could not resolve value type of '{name}'"
  | .malformedType name defect => s!"Malformed type '{name}': " ++ defect.message
  | .invalidSection name => s!"Section '{name}' must be a mapping"
  | .cyclicDependency members => "Cyclic type dependency between: " ++ ", ".intercalate members
  | .validation violations => "Schema validation failed:\n  " ++ "\n  ".intercalate violations
  | .io => "IO error"
  | .yaml => "YAML error"

end SchemaError

end Schemata
