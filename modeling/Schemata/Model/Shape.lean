import Schemata.Model.Node

/-!
# Equality of shape

Two nodes have the same shape when they agree in everything that makes a difference between types:
tag, reference flag and kind, and in the names and shapes of their members. Descriptions, aliases,
defaults, constraints and metadata make no difference. This is `Node.sameShape` (`is_equal_shape`);
`Node.sameType` (`is_equal_type`) also compares the names of the two nodes themselves.

`Node.identical` compares every attribute; mappings in defaults and metadata are compared without
order.
-/

namespace Schemata

/-- Equality of optional bounds. -/
def sameBound : Option Number → Option Number → Bool
  | none, none => true
  | some a, some b => a.same b
  | _, _ => false

/-- Equality of leaf kinds without their defaults. -/
def Leaf.sameShape : Leaf → Leaf → Bool
  | .integer a, .integer b => a.base = b.base && sameBound a.min b.min && sameBound a.max b.max
  | .float a, .float b => sameBound a.min b.min && sameBound a.max b.max
  | .boolean _, .boolean _ => true
  | .string a, .string b => a.pattern = b.pattern && a.min = b.min && a.max = b.max
  | .enum a, .enum b => a.base = b.base && a.values = b.values
  | _, _ => false

/-- Equality of arrays without their item types and defaults. -/
def ArraySpec.sameShape (a b : ArraySpec) : Bool :=
  a.itemName = b.itemName && a.minItems = b.minItems && a.maxItems = b.maxItems

/-- Equality of tags and reference flags. -/
def Head.sameShape (a b : Head) : Bool := a.tag = b.tag && a.isRef = b.isRef

namespace Node

mutual
/-- Equality of shape: the names of the two nodes are left aside, those of their members count. -/
def sameShape : Node → Node → Bool
  | ⟨h, .leaf a⟩, ⟨g, .leaf b⟩ => h.sameShape g && a.sameShape b
  | ⟨h, .array a s⟩, ⟨g, .array b t⟩ =>
    h.sameShape g && (a.name = b.name && sameShape a b) && s.sameShape t
  | ⟨h, .dictionary a c _⟩, ⟨g, .dictionary b d _⟩ =>
    h.sameShape g && (a.name = b.name && sameShape a b) && (c.name = d.name && sameShape c d)
  | ⟨h, .object as _⟩, ⟨g, .object bs _⟩ => h.sameShape g && sameFields as bs
  | _, _ => false
/-- Equality of field lists in order: names of fields, and names and shapes of their types. -/
def sameFields : List Field → List Field → Bool
  | [], [] => true
  | ⟨h, a⟩ :: as, ⟨g, b⟩ :: bs =>
    h.name = g.name && (a.name = b.name && sameShape a b) && sameFields as bs
  | _, _ => false
end

/-- Equality of name and shape. -/
def sameType (a b : Node) : Bool := a.name = b.name && sameShape a b

end Node

/-! ## Full equality -/

/-- Equality of optional literals. -/
def sameLiteral : Option Json → Option Json → Bool
  | none, none => true
  | some a, some b => a.same b
  | _, _ => false

/-- Equality of leaf kinds, defaults included. -/
def Leaf.identical (a b : Leaf) : Bool :=
  a.sameShape b && match a, b with
    | .integer a, .integer b => sameLiteral a.default b.default
    | .float a, .float b => sameLiteral a.default b.default
    | .boolean a, .boolean b => a = b
    | .string a, .string b => sameLiteral a.default b.default
    | .enum a, .enum b => sameLiteral a.default b.default
    | _, _ => false

/-- Equality of heads, metadata compared without order. -/
def Head.identical (a b : Head) : Bool :=
  { a with xml := [] } = { b with xml := [] } && (Json.object a.xml).same (.object b.xml)

/-- Equality of field heads. -/
def FieldHead.identical (a b : FieldHead) : Bool :=
  a.name = b.name && a.description = b.description && a.required = b.required &&
    sameLiteral a.default b.default

namespace Node

mutual
/-- Equality in every attribute. -/
def identical : Node → Node → Bool
  | ⟨h, .leaf a⟩, ⟨g, .leaf b⟩ => h.identical g && a.identical b
  | ⟨h, .array a s⟩, ⟨g, .array b t⟩ =>
    h.identical g && identical a b && s.sameShape t && sameLiteral s.default t.default
  | ⟨h, .dictionary a c d⟩, ⟨g, .dictionary b e f⟩ =>
    h.identical g && identical a b && identical c e && sameLiteral d f
  | ⟨h, .object as d⟩, ⟨g, .object bs e⟩ =>
    h.identical g && identicalFields as bs && sameLiteral d e
  | _, _ => false
/-- Equality of field lists in every attribute. -/
def identicalFields : List Field → List Field → Bool
  | [], [] => true
  | ⟨h, a⟩ :: as, ⟨g, b⟩ :: bs => h.identical g && identical a b && identicalFields as bs
  | _, _ => false
end

end Node

end Schemata
