import Schemata.Model.Node
import Schemata.Text.Split

/-!
# Documentation index

The reference documentation of a schema is a flat list of entries, one for each value that a user
can set, found by walking the configuration object depth first. A field that has fields of its own
opens a path `root/field`; a value without inner structure is a leaf `root/@name`. An array or
dictionary whose members have no structure becomes one leaf under its own label.

* `DocEntry.of?` (`document`, `walk`, `walk_field`) lists the entries of a node, nothing for one
  without structure;
* `DocIndex.ofEntries` (`from_entries`) groups entries into sections.
-/

namespace Schemata

/-- One line of the documentation. -/
structure DocEntry where
  /-- Where the value stands. -/
  path : String
  /-- Text for the reader. -/
  description : String
  /-- Whether the value has to be set. -/
  required : Bool
  /-- The default literal. -/
  default : Option Json
deriving DecidableEq

namespace DocEntry

/-- The entry of a value without inner structure. -/
def leaf (root name description : String) (required : Bool) (default : Option Json) : DocEntry :=
  ⟨root ++ "/@" ++ name, description, required, default⟩

mutual
/-- The entries of a node under a root path; nothing for a node without inner structure. -/
def of? (root : String) : Node → Option (List DocEntry)
  | ⟨_, .leaf _⟩ => none
  | ⟨h, .array item s⟩ =>
    some ((of? root item).getD
      [leaf root h.label h.description (s.minItems.getD 0 > 0) item.default?])
  | ⟨h, .dictionary _ value _⟩ =>
    some ((of? root value).getD [leaf root h.label h.description false value.default?])
  | ⟨_, .object fields _⟩ => some (ofFields root fields)
/-- The entries of fields, in order. -/
def ofFields (root : String) : List Field → List DocEntry
  | [] => []
  | ⟨h, type⟩ :: rest =>
    (of? (root ++ "/" ++ h.name) type).getD
      [leaf root h.name h.description h.required type.default?] ++ ofFields root rest
end

/-- The entries of a node; a node without inner structure has none. -/
def of (root : String) (n : Node) : List DocEntry := (of? root n).getD []

/-- The section of an entry: the second segment of its path, or the only one. -/
def sectionKey (e : DocEntry) : String :=
  match Text.splitAt '/' e.path with
  | _ :: second :: _ => second
  | [only] => only
  | [] => ""

end DocEntry

/-- Entries of one section. -/
structure DocSection where
  /-- The key of the section. -/
  name : String
  /-- Its entries, in order. -/
  entries : List DocEntry
deriving DecidableEq

/-- Sections in order of first appearance. -/
structure DocIndex where
  /-- The sections. -/
  sections : List DocSection
deriving DecidableEq

namespace DocIndex

/-- Sections with one more entry, at the end of its section or in a new one. -/
def insert (e : DocEntry) : List DocSection → List DocSection
  | [] => [⟨e.sectionKey, [e]⟩]
  | s :: rest =>
    if s.name = e.sectionKey then ⟨s.name, s.entries ++ [e]⟩ :: rest else s :: insert e rest

/-- Entries grouped by section. -/
def ofEntries (entries : List DocEntry) : DocIndex :=
  ⟨entries.foldl (fun sections e => insert e sections) []⟩

/-- The section of a key. -/
def section? (i : DocIndex) (name : String) : Option DocSection :=
  i.sections.find? (·.name = name)

/-- The number of entries in all sections. -/
def entryCount (i : DocIndex) : Nat := (i.sections.flatMap (·.entries)).length

end DocIndex

/-! ## Document values -/

/-- An entry as a document value. -/
def DocEntry.toJson (e : DocEntry) : Json :=
  .object [("path", .string e.path), ("description", .string e.description),
    ("required", .bool e.required), ("default", e.default.getD .null)]

/-- An index as a document value. -/
def DocIndex.toJson (i : DocIndex) : Json :=
  .object [("sections", .array (i.sections.map fun s =>
    .object [("name", .string s.name), ("entries", .array (s.entries.map DocEntry.toJson))]))]

end Schemata
