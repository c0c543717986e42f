import Schemata.Model.Node

/-!
# Nodes as document values

The form in which nodes are handed to renderers: the attributes of the head, then the kind and
what belongs to it. Metadata is left out when there is none.
-/

namespace Schemata

/-- The members that a leaf kind adds. -/
def Leaf.members : Leaf → List (String × Json)
  | .integer s =>
    [("kind", .string "integer"), ("base", .nat s.base), ("default", s.default.getD .null),
      ("min", .optional .number s.min), ("max", .optional .number s.max)]
  | .float s =>
    [("kind", .string "float"), ("default", s.default.getD .null),
      ("min", .optional .number s.min), ("max", .optional .number s.max)]
  | .boolean d => [("kind", .string "boolean"), ("default", .optional .bool d)]
  | .string s =>
    [("kind", .string "string"), ("default", s.default.getD .null),
      ("pattern", .optional .string s.pattern), ("min", .optional .nat s.min),
      ("max", .optional .nat s.max)]
  | .enum s =>
    [("kind", .string "enum"), ("base", .string s.base.name), ("values", .strings s.values),
      ("default", s.default.getD .null)]

/-- The members that the head of a node comes to. -/
def Head.members (h : Head) : List (String × Json) :=
  [("name", .string h.name), ("alias", .string h.label), ("type", .string h.tag.name),
    ("description", .string h.description), ("is_ref", .bool h.isRef),
    ("is_nested", .bool h.isNested), ("required", .bool h.required),
    ("constraints", .array (h.constraints.map Constraint.toJson))] ++
  if h.xml.isEmpty then [] else [("xml", .object h.xml)]

namespace Node

mutual
/-- The node as a document value. -/
def toJson : Node → Json
  | ⟨h, .leaf a⟩ => .object (h.members ++ a.members)
  | ⟨h, .array item s⟩ =>
    .object (h.members ++
      [("kind", .string "array"), ("item_type", toJson item), ("item_name", .string s.itemName),
        ("default", s.default.getD .null), ("min_items", .optional .nat s.minItems),
        ("max_items", .optional .nat s.maxItems)])
  | ⟨h, .dictionary key value d⟩ =>
    .object (h.members ++
      [("kind", .string "dictionary"), ("key_type", toJson key), ("value_type", toJson value),
        ("default", d.getD .null)])
  | ⟨h, .object fields d⟩ =>
    .object (h.members ++
      [("kind", .string "object"), ("fields", .array (fieldsToJson fields)),
        ("default", d.getD .null)])
/-- The fields of an object as document values. -/
def fieldsToJson : List Field → List Json
  | [] => []
  | ⟨h, type⟩ :: rest =>
    .object [("name", .string h.name), ("type", toJson type),
      ("description", .string h.description), ("required", .bool h.required),
      ("default", h.default.getD .null)] :: fieldsToJson rest
end

/-- Whether a document value looks like a node: it has a name, and a known tag as its type. -/
def describedBy (value : Json) : Bool :=
  match value with
  | .object members =>
    ((members.lookup "name").bind Json.string?).isSome &&
      (((members.lookup "type").bind Json.string?).bind Tag.ofName?).isSome
  | _ => false

end Node

end Schemata
