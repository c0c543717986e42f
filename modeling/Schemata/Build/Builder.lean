import Schemata.Build.Entry

/-!
# A builder of type nodes

A builder answers requests about one document, one after the other. It keeps what it has recorded,
and while it answers a request also the references that it is resolving: a reference joins them
before its target is loaded and leaves them again behind it, whether the target could be loaded or
not. Loading walks down the document as `Entry.load` does, which is told the references that are
being resolved and need not keep them.

* `Builder.loadSection`, `Builder.load` and `Builder.resolveIn` (`load_section`, `load_type`,
  `load_ref_type`) are the requests;
* `Builder.answer` answers one request;
* `Builder.answers` answers several, and goes on after those that fail.
-/

namespace Schemata

/-- What a builder keeps. -/
structure Builder where
  /-- The references being resolved, the outermost one first. -/
  resolving : List String
  /-- What was recorded. -/
  diagnostics : Diagnostics

/-- A step of a builder. What it did before a failure stays. -/
abbrev Building := ExceptT SchemaError (StateM Builder)

namespace Builder

/-- Nothing resolved and nothing recorded. -/
def fresh : Builder := ⟨[], []⟩

/-- One diagnostic more. -/
def record (d : Diagnostic) : Building Unit :=
  modify fun b => { b with diagnostics := b.diagnostics ++ [d] }

/-- A step with its failure held back, so that something can be done behind it. -/
def attempt {α : Type} (step : Building α) : Building (Except SchemaError α) :=
  ExceptT.lift step.run

/-- A step made while one more reference is being resolved. The reference is taken away again behind
it, also when it fails. -/
def whileResolving {α : Type} (reference : String) (step : Building α) : Building α := do
  modify fun b => { b with resolving := b.resolving ++ [reference] }
  let outcome ← attempt step
  modify fun b => { b with resolving := b.resolving.dropLast }
  liftM outcome

/-- How a reference site of a given name is resolved; nothing when its target is no type. -/
abbrev Resolver := String → Props → Building (Option Node)

/-! ## Walking down the document -/

/-- The member type under a key of its own, or of the reference beside the container's type. -/
def memberOr (resolve : Resolver) (props : Props) (key : String)
    (member : Building (Option Node)) : Building (Option Node) :=
  if props.has key then member
  else if props.has "$ref" then resolve key props.referenceOnly
  else return none

mutual
/-- The node of an entry under its key; nothing when it is no type. -/
def load (resolve : Resolver) (name : String) : Json → Building (Option Node)
  | .object props =>
    match Entry.declaration name props with
    | .nothing => return none
    | .reference => do return Entry.withFlag props (← resolve name props)
    | .unrecognized found => throw (.malformedType name (.unrecognizedType found))
    | .leaf tag spec => do
      let spec ← spec
      Entry.finish name tag props (.leaf spec)
    | .array => do
      let item ← memberOr resolve props "items" (loadMember resolve "items" props)
      let kind ← Entry.arrayOf name props item
      Entry.finish name .array props kind
    | .dictionary => do
      let some key ← loadMember resolve "keys" props | throw (.unresolvedKeyType name)
      let some value ← memberOr resolve props "values" (loadMember resolve "values" props)
        | throw (.unresolvedValueType name)
      Entry.finish name .dict props (.dictionary key value (Props.value? props "default"))
    | .object => do
      let fields ← loadProperties resolve name (Props.requiredNames props) props
      Entry.finish name .object props (.object fields (Props.value? props "default"))
  | _ => return none
/-- The node of the member with the given key; nothing when there is none or it is no type. -/
def loadMember (resolve : Resolver) (key : String) : List (String × Json) →
    Building (Option Node)
  | [] => return none
  | (k, v) :: rest => if k = key then load resolve key v else loadMember resolve key rest
/-- The fields that the `properties` among the members declare. -/
def loadProperties (resolve : Resolver) (name : String) (required : List String) :
    List (String × Json) → Building (List Field)
  | [] => return []
  | (k, v) :: rest =>
    if k = "properties" then
      match v with
      | .null => return []
      | .object entries => loadFields resolve name required entries
      | _ => throw (.malformedType name .propertiesNotMapping)
    else loadProperties resolve name required rest
/-- The fields of an object; entries that are no types are left out and recorded. -/
def loadFields (resolve : Resolver) (name : String) (required : List String) :
    List (String × Json) → Building (List Field)
  | [] => return []
  | (k, v) :: rest => do
    match ← load resolve k v with
    | some type =>
      return Entry.fieldOf required k type :: (← loadFields resolve name required rest)
    | none =>
      record (.ignored s!"properties of {name}" k)
      loadFields resolve name required rest
end

/-! ## References -/

/-- The resolver with `levels` references still allowed below those being resolved. -/
def resolver (document : Json) : Nat → Resolver
  | 0 => fun _ _ => do throw (.cyclicReference (← get).resolving)
  | levels + 1 => fun name site => do
    let some (.string reference) := site.lookup "$ref"
      | throw (.malformedType name .referenceNotText)
    let (key, target) ← Pointer.resolve document reference
    let resolving := (← get).resolving
    if resolving.contains reference then
      throw (.cyclicReference (resolving ++ [reference]))
    match ← whileResolving reference (load (resolver document levels) key target) with
    | none => return none
    | some node => (node.atSite name site).map some

/-- The resolver of a document. -/
def resolveIn (document : Json) : Resolver := resolver document (Entry.levels document)

/-! ## Sections -/

/-- The nodes of the entries of a section; those that are no types are left out and recorded. -/
def loadEntries (document : Json) (name : String) : List (String × Json) → Building (List Node)
  | [] => return []
  | (k, v) :: rest => do
    match ← load (resolveIn document) k v with
    | some node => return node :: (← loadEntries document name rest)
    | none =>
      record (.ignored name k)
      loadEntries document name rest

/-- The nodes of a top-level section; a missing section is empty. -/
def loadSection (document : Json) (name : String) : Building (List Node) :=
  match document.get? name with
  | none | some .null => return []
  | some (.object entries) => loadEntries document name entries
  | some _ => throw (.invalidSection name)

/-! ## Requests -/

/-- What a builder can be asked for. -/
inductive Request where
  /-- The nodes of a top-level section. -/
  | nodes (name : String)
  /-- The node of an entry. -/
  | entry (name : String) (value : Json)
  /-- The node of a reference site. -/
  | reference (name : String) (site : Props)

/-- What a builder answers. -/
inductive Answer where
  /-- The nodes of a section. -/
  | nodes (nodes : List Node)
  /-- The node of an entry or of a reference site; nothing when it is no type. -/
  | node (node : Option Node)

/-- The answer to a request about a document. -/
def answer (document : Json) : Request → Building Answer
  | .nodes name => .nodes <$> loadSection document name
  | .entry name value => .node <$> load (resolveIn document) name value
  | .reference name site => .node <$> resolveIn document name site

/-- The answers to some requests about a document, one after the other. A request that fails does
not keep the builder from the next one. -/
def answers (document : Json) : List Request → StateM Builder (List (Except SchemaError Answer))
  | [] => return []
  | request :: rest => do
    let first ← (answer document request).run
    return first :: (← answers document rest)

end Builder

end Schemata
