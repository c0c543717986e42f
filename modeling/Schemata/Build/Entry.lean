import Schemata.Build.Loaded
import Schemata.Build.Override
import Schemata.Json.Pointer

/-!
# Building type nodes

An entry of a schema is a type when it is a mapping with a `type` word or a `$ref`. The word
decides the kind; a word that is no tag gives way to a `$ref` beside it. Members of arrays,
dictionaries and objects are entries again.

Loading walks down the document (`Entry.load`), and leaves every reference to a resolver. The
resolver at a level looks up the target, refuses a reference that is being resolved already, and
loads the target with the resolver one level down (`Entry.resolver`). A chain of references without
repetition is no longer than the list of all references of the document, so the levels that
`Entry.loadIn` starts with are never used up.

* `Pointer.resolve` (`resolve_pointer`) finds what a local reference points at;
* `Entry.load` (`load_type`, `load_shape`) loads one entry, `Entry.arrayOf`, `Entry.loadProperties`
  and `Entry.loadFields` (`array`, `dictionary`, `object`) what belongs to it;
* `Entry.resolver` (`load_ref_type`) loads the target of a reference;
* `Entry.loadSection` (`load_section`) loads the entries of a section.
-/

namespace Schemata

/-! ## References of a document -/

namespace Json

mutual
/-- Every text under a `$ref` key, at any depth and in order. -/
def references : Json → List String
  | .array items => referencesIn items
  | .object members => referencesUnder members
  | _ => []
/-- The references in the items of a sequence. -/
def referencesIn : List Json → List String
  | [] => []
  | a :: rest => references a ++ referencesIn rest
/-- The references in the members of a mapping. -/
def referencesUnder : List (String × Json) → List String
  | [] => []
  | (k, a) :: rest =>
    (match k, a with
      | "$ref", .string s => [s]
      | _, _ => []) ++ references a ++ referencesUnder rest
end

end Json

namespace Pointer

/-- The value that a local reference `#/a/b` points at, with the last key of the path. -/
def resolve (document : Json) (reference : String) : Except SchemaError (String × Json) :=
  match Text.splitBy (· = '/') reference.toList with
  | ['#'] :: steps =>
    let path := steps.map unescape
    match path.getLast?, document.at? path with
    | some key, some target => .ok (key, target)
    | _, _ => .error (.unresolvedReference reference)
  | _ => .error (.unsupportedReference reference)

end Pointer

namespace Entry

/-! ## Declarations -/

/-- What the members of an entry declare. -/
inductive Declaration where
  /-- The entry is no type. -/
  | nothing
  /-- A reference site. -/
  | reference
  /-- A scalar, or an enumeration over it. -/
  | leaf (tag : Tag) (spec : Except SchemaError Leaf)
  /-- An array. -/
  | array
  /-- A dictionary. -/
  | dictionary
  /-- An object. -/
  | object
  /-- The `type` word is no tag and there is no reference. -/
  | unrecognized (found : Json)

/-- The declaration of a leaf of the given tag; a list of literals makes it an enumeration. -/
def leafDeclaration (name : String) (tag : Tag) (props : Props) : Declaration :=
  if props.has "enum" && (tag = .int || tag = .uint || tag = .string) then
    .leaf .enum (Leaf.enumOf name tag props)
  else match tag with
    | .int | .uint => .leaf tag (Leaf.integerOf name props)
    | .float | .double => .leaf tag (Leaf.floatOf name props)
    | .bool => .leaf tag (.ok (Leaf.booleanOf props))
    | _ => .leaf tag (Leaf.stringOf name props)

/-- What an entry with these members declares. -/
def declaration (name : String) (props : Props) : Declaration :=
  match props.lookup "type" with
  | none => if props.has "$ref" then .reference else .nothing
  | some word =>
    match word.string?.bind Tag.ofWord? with
    | some .array => .array
    | some .dict => .dictionary
    | some .object => .object
    | some tag => leafDeclaration name tag props
    | none => if props.has "$ref" then .reference else .unrecognized word

/-- How a reference site of a given name is resolved; nothing when its target is no type. -/
abbrev Resolver := String → Props → Loaded (Option Node)

/-- The node of a declaration: its kind, its description and metadata, and its own flag. -/
def finish (name : String) (tag : Tag) (props : Props) (kind : Kind) :
    Except SchemaError (Option Node) := do
  let description := (← props.text? name "description").getD ""
  let xml ← props.xml name
  return some ⟨{ Head.fresh name tag with
      description := description
      xml := xml
      required := props.required }, kind⟩

/-- The array of an item type. -/
def arrayOf (name : String) (props : Props) (item : Option Node) :
    Except SchemaError Kind := do
  let some item := item | .error (.unresolvedItemType name)
  let itemName := (← props.text? name "itemName").getD "entry"
  let min ← props.countOr? name "minItems" "min"
  let max ← props.countOr? name "maxItems" "max"
  return .array item ⟨itemName, props.value? "default", min, max⟩

/-- The member type under a key of its own, or of the reference beside the container's type. -/
def memberOr (resolve : Resolver) (props : Props) (key : String)
    (member : Loaded (Option Node)) : Loaded (Option Node) :=
  if props.has key then member
  else if props.has "$ref" then resolve key props.referenceOnly
  else .value none

/-- A resolved reference with the flag of its site. -/
def withFlag (props : Props) (node : Option Node) : Option Node :=
  node.map fun n => ⟨{ n.head with required := props.required }, n.kind⟩

/-- A field of an object, whose required field names are given. -/
def fieldOf (required : List String) (name : String) (type : Node) : Field :=
  ⟨⟨name, type.head.description, required.contains name || type.head.required, type.default?⟩,
    type⟩

/-! ## Walking down the document -/

mutual
/-- The node of an entry under its key; nothing when it is no type. -/
def load (resolve : Resolver) (name : String) : Json → Loaded (Option Node)
  | .object props =>
    match declaration name props with
    | .nothing => .value none
    | .reference => do return withFlag props (← resolve name props)
    | .unrecognized found => .fail (.malformedType name (.unrecognizedType found))
    | .leaf tag spec => do
      let spec ← Loaded.lift spec
      Loaded.lift (finish name tag props (.leaf spec))
    | .array => do
      let item ← memberOr resolve props "items" (loadMember resolve "items" props)
      let kind ← Loaded.lift (arrayOf name props item)
      Loaded.lift (finish name .array props kind)
    | .dictionary => do
      let some key ← loadMember resolve "keys" props | .fail (.unresolvedKeyType name)
      let some value ← memberOr resolve props "values" (loadMember resolve "values" props)
        | .fail (.unresolvedValueType name)
      Loaded.lift
        (finish name .dict props (.dictionary key value (Props.value? props "default")))
    | .object => do
      let fields ← loadProperties resolve name (Props.requiredNames props) props
      Loaded.lift (finish name .object props (.object fields (Props.value? props "default")))
  | _ => .value none
/-- The node of the member with the given key; nothing when there is none or it is no type. -/
def loadMember (resolve : Resolver) (key : String) : List (String × Json) →
    Loaded (Option Node)
  | [] => .value none
  | (k, v) :: rest => if k = key then load resolve key v else loadMember resolve key rest
/-- The fields that the `properties` among the members declare. -/
def loadProperties (resolve : Resolver) (name : String) (required : List String) :
    List (String × Json) → Loaded (List Field)
  | [] => .value []
  | (k, v) :: rest =>
    if k = "properties" then
      match v with
      | .null => .value []
      | .object entries => loadFields resolve name required entries
      | _ => .fail (.malformedType name .propertiesNotMapping)
    else loadProperties resolve name required rest
/-- The fields of an object; entries that are no types are left out and recorded. -/
def loadFields (resolve : Resolver) (name : String) (required : List String) :
    List (String × Json) → Loaded (List Field)
  | [] => .value []
  | (k, v) :: rest => do
    match ← load resolve k v with
    | some type => return fieldOf required k type :: (← loadFields resolve name required rest)
    | none =>
      Loaded.record (.ignored s!"properties of {name}" k)
      loadFields resolve name required rest
end

/-! ## References -/

/-- The resolver with `levels` references still allowed below those being resolved. -/
def resolver (document : Json) : Nat → List String → Resolver
  | 0, resolving => fun _ _ => .fail (.cyclicReference resolving)
  | levels + 1, resolving => fun name site => do
    let some (.string reference) := site.lookup "$ref"
      | .fail (.malformedType name .referenceNotText)
    let (key, target) ← Loaded.lift (Pointer.resolve document reference)
    if resolving.contains reference then
      .fail (.cyclicReference (resolving ++ [reference]))
    else
      match ← load (resolver document levels (resolving ++ [reference])) key target with
      | none => return none
      | some node => Loaded.lift ((node.atSite name site).map some)

/-- Levels that no chain of references of the document uses up. -/
def levels (document : Json) : Nat := document.references.length + 2

/-- The resolver of a document with no reference being resolved. -/
def resolveIn (document : Json) : Resolver := resolver document (levels document) []

/-- The node of an entry of a document. -/
def loadIn (document : Json) (name : String) (entry : Json) : Loaded (Option Node) :=
  load (resolveIn document) name entry

/-! ## Sections -/

/-- The nodes of the entries of a section; those that are no types are left out and recorded. -/
def loadEntries (document : Json) (name : String) : List (String × Json) → Loaded (List Node)
  | [] => .value []
  | (k, v) :: rest => do
    match ← loadIn document k v with
    | some node => return node :: (← loadEntries document name rest)
    | none =>
      Loaded.record (.ignored name k)
      loadEntries document name rest

/-- The nodes of a top-level section; a missing section is empty. -/
def loadSection (document : Json) (name : String) : Loaded (List Node) :=
  match document.get? name with
  | none | some .null => .value []
  | some (.object entries) => loadEntries document name entries
  | some _ => .fail (.invalidSection name)

end Entry

end Schemata
