import Schemata.Extract.Path
import Schemata.Model.Shape

/-!
# Planning the extraction of nested types

Every node that is declared inside another type, and every element, becomes a top-level type of
its own: fields of any kind, and composites wherever they stand. Scalar items, keys and values
stay where they are, and so does everything at or below a reference.

A plan is made without touching the forest. The planner walks each tree from the leaves up and
places every such node under a name: its base name, the base name with the suffix of its kind, or
the base name with a counter, whichever first is free or taken by a node of the same shape. A name
that is free becomes a new definition.

* `Planner.place` (`place`) chooses the name of one node, starting from its base name
  (`hoisted_base_name`);
* `Planner.canonicalize` (`canonicalize`, `canonical_children`, `descend`) walks a tree;
* `Plan.make` (`plan`) plans a whole forest.
-/

namespace Schemata

/-- A new name for a node of the forest. -/
structure Rename where
  /-- The tree. -/
  root : Root
  /-- The path to the node. -/
  path : List Step
  /-- The new name. -/
  name : String
deriving DecidableEq

/-- A new top-level definition. -/
structure Hoisted where
  /-- The definition. -/
  node : Node
  /-- Where the first node of this shape stands. -/
  origin : String
deriving DecidableEq

/-- What extraction is going to do. -/
structure Plan where
  /-- New names of nodes in the forest. -/
  renames : List Rename
  /-- New definitions. -/
  hoisted : List Hoisted
deriving DecidableEq

/-- Whether a plan does nothing. -/
def Plan.isEmpty (p : Plan) : Bool := p.renames.isEmpty && p.hoisted.isEmpty

namespace Node

/-- What a member contributes to the name of its container: objects their name, all other kinds
their tag. -/
def memberName (n : Node) : String :=
  match n.kind with
  | .object .. => n.name
  | _ => n.tag.name

/-- The first choice for the name of a definition. Containers are named after their members. -/
def baseName (n : Node) : String :=
  match n.kind with
  | .array item _ => item.memberName ++ "_array"
  | .dictionary key value _ => key.memberName ++ "_" ++ value.memberName ++ "_dict"
  | _ => n.name

end Node

/-- What the planner knows: declared types, in their final form once they have been walked, the
definitions made so far, and the renames so far. -/
structure Planner where
  /-- The declared types. -/
  declared : List Node
  /-- The new definitions. -/
  hoisted : List Hoisted
  /-- The new names. -/
  renames : List Rename

namespace Planner

/-- Every top-level type: the declared ones, then the new ones. -/
def registry (p : Planner) : List Node := p.declared ++ p.hoisted.map (·.node)

/-- The first top-level type of a name. -/
def lookup? (p : Planner) (name : String) : Option Node := p.registry.find? (·.name = name)

/-- Whether a node can stand under a name: it is free, or names a node of the same shape. -/
def accepts (p : Planner) (n : Node) (name : String) : Bool :=
  match p.lookup? name with
  | none => true
  | some existing => n.sameShape existing

/-- The names that are tried for a node, one more of them with a counter than there are types. -/
def candidates (p : Planner) (n : Node) : List String :=
  n.baseName :: (n.baseName ++ n.kind.suffix) ::
    (List.range (p.registry.length + 1)).map fun i => s!"{n.baseName}-{i}"

/-- The first name under which a node can stand. -/
def choose (p : Planner) (n : Node) : String :=
  ((p.candidates n).find? (p.accepts n)).getD n.baseName

/-- A node as a definition of the given name. -/
def definition (n : Node) (name : String) : Node :=
  ⟨{ n.head with name := name, label := name, isNested := true }, n.kind⟩

/-- The name of a node, and the planner that knows a definition of that name. -/
def place (p : Planner) (origin : String) (n : Node) : String × Planner :=
  let name := p.choose n
  if (p.lookup? name).isSome then (name, p)
  else (name, { p with hoisted := p.hoisted ++ [⟨definition n name, origin⟩] })

/-- A place in the forest while it is being walked. -/
structure Place where
  /-- The tree. -/
  root : Root
  /-- The path down from its root. -/
  path : List Step
  /-- The path in words. -/
  trail : List String

/-- The place one step further down. -/
def Place.down (at_ : Place) (step : Step) (label : String) : Place :=
  ⟨at_.root, at_.path ++ [step], at_.trail ++ [label]⟩

/-- A node whose members are final, given its final name: placed if it is a composite or stands
where scalars are placed too. -/
def settle (p : Planner) (here : Place) (scalars : Bool) (n : Node) : Node × Planner :=
  if scalars || n.kind.isComposite then
    let (name, p) := p.place ("/".intercalate here.trail) n
    if name = n.name then (n, p)
    else (n.rename name, { p with renames := p.renames ++ [⟨here.root, here.path, name⟩] })
  else (n, p)

mutual
/-- The final form of a node; `scalars` says whether a scalar is placed here. -/
def canonicalize (p : Planner) (here : Place) (scalars : Bool) : Node → Node × Planner
  | ⟨h, k⟩ =>
    if h.isRef then (⟨h, k⟩, p)
    else
      let (kind, p) := canonicalKind p here k
      p.settle here scalars ⟨h, kind⟩
/-- A kind whose members are in their final form. -/
def canonicalKind (p : Planner) (here : Place) : Kind → Kind × Planner
  | .leaf spec => (.leaf spec, p)
  | .array item s =>
    let (item, p) := canonicalize p (here.down .item "items") false item
    (.array item s, p)
  | .dictionary key value d =>
    let (key, p) := canonicalize p (here.down .key "keys") false key
    let (value, p) := canonicalize p (here.down .value "values") false value
    (.dictionary key value d, p)
  | .object fields d =>
    let (fields, p) := canonicalFields p here 0 fields
    (.object fields d, p)
/-- Fields from position `index` on, their types in final form. -/
def canonicalFields (p : Planner) (here : Place) (index : Nat) :
    List Field → List Field × Planner
  | [] => ([], p)
  | ⟨h, type⟩ :: rest =>
    let (type, p) := canonicalize p (here.down (.field index) h.name) true type
    let (rest, p) := canonicalFields p here (index + 1) rest
    (⟨h, type⟩ :: rest, p)
end

/-- The declared type at a position, walked; it keeps its own name. -/
def walkType (p : Planner) (index : Nat) (n : Node) : Planner :=
  if n.isRef then p
  else
    let (kind, p) := canonicalKind p ⟨.type index, [], [s!"types/{n.name}"]⟩ n.kind
    { p with declared := p.declared.set index ⟨n.head, kind⟩ }

/-- The element at a position, walked. -/
def walkElement (p : Planner) (index : Nat) (n : Node) : Planner :=
  (p.canonicalize ⟨.element index, [], [s!"elements/{n.label}"]⟩ true n).2

/-- The types from position `index` on, walked in order. -/
def walkTypes (p : Planner) (index : Nat) : List Node → Planner
  | [] => p
  | n :: rest => walkTypes (p.walkType index n) (index + 1) rest

/-- The elements from position `index` on, walked in order. -/
def walkElements (p : Planner) (index : Nat) : List Node → Planner
  | [] => p
  | n :: rest => walkElements (p.walkElement index n) (index + 1) rest

end Planner

/-- The plan for a forest of declared types and elements. -/
def Plan.make (types elements : List Node) : Plan :=
  let p := ((⟨types, [], []⟩ : Planner).walkTypes 0 types).walkElements 0 elements
  ⟨p.renames, p.hoisted⟩

end Schemata
