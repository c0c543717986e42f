import Schemata.Model.Constraint
import Schemata.Model.Tag

/-!
# Type nodes

A schema type is a tree of nodes. Every node has a head with the attributes all types share, and a
kind with what is particular to it: a leaf kind (numbers, truth values, texts and enumerations), an
array of one item type, a dictionary of a key and a value type, or an object with fields.

* `Node.children` (`children`) are the nodes one step down;
* `Node.dependencies` (`dependencies`, `is_named`) are those of them that stand for a top-level type
  of their name;
* `Node.beq_iff` makes equality of nodes decidable.
-/

namespace Schemata

/-! ## Leaf kinds -/

/-- What a whole-number type says beyond its head. -/
structure IntegerSpec where
  /-- The base in which literals are written. -/
  base : Nat
  /-- The default literal. -/
  default : Option Json
  /-- The smallest value. -/
  min : Option Number
  /-- The largest value. -/
  max : Option Number
deriving DecidableEq

/-- What a floating-point type says beyond its head. -/
structure FloatSpec where
  /-- The default literal. -/
  default : Option Json
  /-- The smallest value. -/
  min : Option Number
  /-- The largest value. -/
  max : Option Number
deriving DecidableEq

/-- What a text type says beyond its head. -/
structure StringSpec where
  /-- The default literal. -/
  default : Option Json
  /-- The pattern that values match. -/
  pattern : Option String
  /-- The smallest length. -/
  min : Option Nat
  /-- The largest length. -/
  max : Option Nat
deriving DecidableEq

/-- What an enumeration says beyond its head. -/
structure EnumSpec where
  /-- The scalar tag that the literals belong to. -/
  base : Tag
  /-- The literals in order. -/
  values : List String
  /-- The default literal. -/
  default : Option Json
deriving DecidableEq

/-- A kind without members. -/
inductive Leaf where
  /-- A whole number. -/
  | integer (spec : IntegerSpec)
  /-- A floating-point number. -/
  | float (spec : FloatSpec)
  /-- A truth value, perhaps with a default. -/
  | boolean (default : Option Bool)
  /-- A text. -/
  | string (spec : StringSpec)
  /-- An enumeration. -/
  | enum (spec : EnumSpec)
deriving DecidableEq

/-! ## Nodes -/

/-- What an array says beyond its head and its item type. -/
structure ArraySpec where
  /-- The name of a single item in output. -/
  itemName : String
  /-- The default literal. -/
  default : Option Json
  /-- The smallest number of items. -/
  minItems : Option Nat
  /-- The largest number of items. -/
  maxItems : Option Nat
deriving DecidableEq

/-- What a field says beyond its type. -/
structure FieldHead where
  /-- The name of the field. -/
  name : String
  /-- Text for the reader of the schema. -/
  description : String
  /-- Whether the field has to be present. -/
  required : Bool
  /-- The default literal. -/
  default : Option Json
deriving DecidableEq

/-- The attributes that all nodes share. -/
structure Head where
  /-- The name of the type; unique once nested types have been extracted. -/
  name : String
  /-- The name used at the place that declares or references the node. -/
  label : String
  /-- The declared tag. -/
  tag : Tag
  /-- Text for the reader of the schema. -/
  description : String
  /-- The node stands for another type and was produced by resolving a reference. -/
  isRef : Bool
  /-- The node was made from one nested in another type. -/
  isNested : Bool
  /-- Whether the node has to be present. -/
  required : Bool
  /-- Constraints attached to the node. -/
  constraints : List Constraint
  /-- Metadata of the format, passed through as it is. -/
  xml : List (String × Json)
deriving DecidableEq

/-- The attributes of a fresh node: named alike everywhere, and everything else empty. -/
def Head.fresh (name : String) (tag : Tag) : Head :=
  ⟨name, name, tag, "", false, false, false, [], []⟩

mutual
/-- A node of the type forest. -/
structure Node where
  /-- The attributes that all nodes share. -/
  head : Head
  /-- What is particular to the node. -/
  kind : Kind
/-- What is particular to a node. -/
inductive Kind
  /-- A kind without members. -/
  | leaf (spec : Leaf)
  /-- A sequence of items of one type. -/
  | array (item : Node) (spec : ArraySpec)
  /-- A mapping from keys of one type to values of another. -/
  | dictionary (key value : Node) (default : Option Json)
  /-- A mapping with declared fields. -/
  | object (fields : List Field) (default : Option Json)
/-- A declared member of an object. -/
structure Field where
  /-- What the field says beyond its type. -/
  head : FieldHead
  /-- The type of the field. -/
  type : Node
end

instance : Inhabited Node := ⟨⟨Head.fresh "" .bool, .leaf (.boolean none)⟩⟩

namespace Field

/-- The name of the field. -/
def name (f : Field) : String := f.head.name

end Field

namespace Kind

/-- Kinds that become top-level types wherever they appear. -/
def isComposite : Kind → Bool
  | .leaf (.enum _) => true
  | .leaf _ => false
  | .array .. => true
  | .dictionary .. => true
  | .object .. => true

/-- What is put behind a name that is taken to tell a type of this kind apart. -/
def suffix : Kind → String
  | .array .. => "-array"
  | .dictionary .. => "-dict"
  | .leaf (.enum _) => "-enum"
  | .object .. => "-object"
  | .leaf _ => "-type"

/-- The default literal as a document value. -/
def default? : Kind → Option Json
  | .leaf (.integer s) => s.default
  | .leaf (.float s) => s.default
  | .leaf (.boolean d) => d.map .bool
  | .leaf (.string s) => s.default
  | .leaf (.enum s) => s.default
  | .array _ s => s.default
  | .dictionary _ _ d => d
  | .object _ d => d

/-- The nodes one step down. -/
def children : Kind → List Node
  | .leaf _ => []
  | .array item _ => [item]
  | .dictionary key value _ => [key, value]
  | .object fields _ => fields.map (·.type)

end Kind

namespace Node

/-- The name of the type. -/
def name (n : Node) : String := n.head.name

/-- The name used at the node's place. -/
def label (n : Node) : String := n.head.label

/-- The declared tag. -/
def tag (n : Node) : Tag := n.head.tag

/-- Whether the node was produced by resolving a reference. -/
def isRef (n : Node) : Bool := n.head.isRef

/-- The node under another name. -/
def rename (n : Node) (name : String) : Node := ⟨{ n.head with name := name }, n.kind⟩

/-- The node with one more constraint at the end of its list. -/
def addConstraint (n : Node) (c : Constraint) : Node :=
  ⟨{ n.head with constraints := n.head.constraints ++ [c] }, n.kind⟩

/-- The default literal as a document value. -/
def default? (n : Node) : Option Json := n.kind.default?

/-- The nodes one step down. -/
def children (n : Node) : List Node := n.kind.children

/-- Whether the node stands for a top-level type of its name wherever it appears. -/
def isNamed (n : Node) : Bool := n.isRef || n.kind.isComposite

/-- The nodes one step down that stand for a top-level type: every field of an object, and the
named members of an array or a dictionary. -/
def dependencies (n : Node) : List Node :=
  match n.kind with
  | .object fields _ => fields.map (·.type)
  | kind => kind.children.filter isNamed

/-- The fields, of an object. -/
def fields? (n : Node) : Option (List Field) :=
  match n.kind with
  | .object fields _ => some fields
  | _ => none

/-- The type of the field with the given name, of an object. -/
def field? (n : Node) (name : String) : Option Field :=
  n.fields?.bind fun fields => fields.find? (·.name = name)

/-- A line that names the node for a reader. -/
def summary (n : Node) : String :=
  s!"{n.name} ({n.tag.name})" ++ if n.isRef then s!" -> ref as {n.label}" else ""

/-! ## Equality -/

mutual
/-- Equality of nodes, attribute by attribute. -/
def beq : Node → Node → Bool
  | ⟨h, .leaf a⟩, ⟨g, .leaf b⟩ => h = g && a = b
  | ⟨h, .array a s⟩, ⟨g, .array b t⟩ => h = g && beq a b && s = t
  | ⟨h, .dictionary a c d⟩, ⟨g, .dictionary b e f⟩ => h = g && beq a b && beq c e && d = f
  | ⟨h, .object a d⟩, ⟨g, .object b e⟩ => h = g && beqFields a b && d = e
  | _, _ => false
/-- Equality of field lists, field by field. -/
def beqFields : List Field → List Field → Bool
  | [], [] => true
  | ⟨h, a⟩ :: as, ⟨g, b⟩ :: bs => h = g && beq a b && beqFields as bs
  | _, _ => false
end

mutual
theorem beq_iff : ∀ a b : Node, beq a b = true ↔ a = b
  | ⟨_, .leaf _⟩, ⟨_, k⟩ => by cases k <;> simp [beq]
  | ⟨_, .array a _⟩, ⟨_, k⟩ => by cases k <;> simp [beq, beq_iff a, and_assoc]
  | ⟨_, .dictionary a b _⟩, ⟨_, k⟩ => by
    cases k <;> simp [beq, beq_iff a, beq_iff b, and_assoc]
  | ⟨_, .object fs _⟩, ⟨_, k⟩ => by cases k <;> simp [beq, beqFields_iff fs, and_assoc]
theorem beqFields_iff : ∀ as bs : List Field, beqFields as bs = true ↔ as = bs
  | [], bs => by cases bs <;> simp [beqFields]
  | ⟨h, a⟩ :: as, bs => by
    cases bs with
    | nil => simp [beqFields]
    | cons b bs =>
      obtain ⟨g, b⟩ := b
      simp [beqFields, beq_iff a, beqFields_iff as, and_assoc]
end

instance : DecidableEq Node := fun a b => decidable_of_iff _ (beq_iff a b)

end Node

end Schemata
