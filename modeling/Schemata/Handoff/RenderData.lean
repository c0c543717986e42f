import Schemata.Digest.Sources
import Schemata.Extract.Apply
import Schemata.Handoff.Docs
import Schemata.Json.Printer
import Schemata.Model.Serial
import Schemata.Order.Graph

/-!
# Render data

What a renderer sees of a compiled schema (`build`): the ordered types and the elements, a
configuration object with a field for every element (`config_type`), the sets of names, the sections
that pass through (`section_or_empty`), and the documentation index.
-/

namespace Schemata

/-- A compiled schema as handed to renderers. -/
structure RenderData where
  /-- The path of the root schema file. -/
  definition : String
  /-- The digest of the source files. -/
  digest : Checksum
  /-- The `info` section as it stands. -/
  info : Json
  /-- The `options` section as it stands. -/
  options : Json
  /-- Types, dependencies first. -/
  types : List Node
  /-- Elements. -/
  elements : List Node
  /-- The object with one field per element. -/
  config : Node
  /-- Element names that are no type names, in order. -/
  uniqueElements : List String
  /-- All type and element names, in order. -/
  uniqueTypes : List String
  /-- The documentation index of the configuration object. -/
  docs : DocIndex

namespace RenderData

/-- The field of the configuration object that an element becomes. -/
def configField (e : Node) : Field :=
  ⟨⟨e.label, e.head.description, e.head.required, e.default?⟩, e⟩

/-- The object with one field per element. -/
def configOf (elements : List Node) : Node :=
  ⟨{ Head.fresh "config" .object with description := "Configuration" },
    .object (elements.map configField) none⟩

/-- A section of the document as it stands; a missing one is the empty mapping. -/
def sectionOf (document : Json) (key : String) : Json :=
  match document.get? key with
  | none | some .null => .empty
  | some v => v

/-- Names without repetition, in increasing order. -/
def nameSet (names : List String) : List String :=
  TypeGraph.sortNames (names.foldl TypeGraph.insertNew [])

/-- The render data of a forest. -/
def build (definition : String) (digest : Checksum) (document : Json) (forest : Forest) :
    RenderData :=
  let typeNames := forest.types.map Node.name
  let elementNames := forest.elements.map Node.label
  let config := configOf forest.elements
  { definition
    digest
    info := sectionOf document "info"
    options := sectionOf document "options"
    types := forest.types
    elements := forest.elements
    config
    uniqueElements := nameSet (elementNames.filter fun n => !typeNames.contains n)
    uniqueTypes := nameSet (typeNames ++ elementNames)
    docs := DocIndex.ofEntries (DocEntry.of "config" config) }

/-- The text put in front of every output file name. -/
def fileLead (d : RenderData) : String :=
  ((d.options.get? "output_prefix").bind Json.string?).getD ""

/-- The type of a name. -/
def typeNamed? (d : RenderData) (name : String) : Option Node := d.types.find? (·.name = name)

/-- The element of a label. -/
def element? (d : RenderData) (label : String) : Option Node :=
  d.elements.find? (·.label = label)

/-- The render data as a document value. -/
def toJson (d : RenderData) : Json :=
  .object [("definition", .string d.definition), ("digest", .string d.digest.hex),
    ("info", d.info), ("options", d.options),
    ("types", .array (d.types.map Node.toJson)),
    ("elements", .array (d.elements.map Node.toJson)),
    ("config", d.config.toJson),
    ("unique_elements", .strings d.uniqueElements),
    ("unique_types", .strings d.uniqueTypes),
    ("docs", d.docs.toJson)]

/-! ## The JSON handoff -/

/-- The name of the file that the handoff is written to. -/
def fileName (d : RenderData) : String := d.fileLead ++ "cgen.json"

/-- The text of the handoff, over several lines or on one. -/
def text (d : RenderData) (pretty : Bool) : String :=
  if pretty then d.toJson.pretty else d.toJson.compact

end RenderData

end Schemata
