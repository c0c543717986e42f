/-!
# Declared tags

The tag of a type is the word it is declared with, after synonyms have been folded (`parse`).
`enum` is a tag that no word declares: an enumeration is a scalar with a list of literals.
-/

namespace Schemata

/-- The ten tags of a type. -/
inductive Tag where
  /-- A signed whole number. -/
  | int
  /-- A whole number that is not negative. -/
  | uint
  /-- A single-precision number. -/
  | float
  /-- A double-precision number. -/
  | double
  /-- A truth value. -/
  | bool
  /-- A text. -/
  | string
  /-- A scalar restricted to a list of literals. -/
  | enum
  /-- A sequence. -/
  | array
  /-- A mapping from keys to values of one type. -/
  | dict
  /-- A mapping with declared fields. -/
  | object
deriving DecidableEq, Inhabited, Repr

namespace Tag

/-- The word of a tag in answers. -/
def name : Tag → String
  | .int => "int"
  | .uint => "uint"
  | .float => "float"
  | .double => "double"
  | .bool => "bool"
  | .string => "string"
  | .enum => "enum"
  | .array => "array"
  | .dict => "dict"
  | .object => "object"

/-- Every tag, in order of declaration. -/
def all : List Tag :=
  [.int, .uint, .float, .double, .bool, .string, .enum, .array, .dict, .object]

/-- The words that declare a tag, synonyms included. -/
def words : Tag → List String
  | .int => ["int", "integer", "number"]
  | .uint => ["uint", "unsigned"]
  | .float => ["float"]
  | .double => ["double"]
  | .bool => ["bool", "boolean"]
  | .string => ["string"]
  | .enum => []
  | .array => ["array", "list"]
  | .dict => ["dict", "dictionary", "map"]
  | .object => ["object"]

/-- The tag that a word declares. -/
def ofWord? (word : String) : Option Tag := all.find? fun t => t.words.contains word

/-- The tag with the given name in answers. -/
def ofName? (name : String) : Option Tag := all.find? fun t => t.name = name

/-- The place of a tag in `all`. -/
def position (t : Tag) : Nat := all.idxOf t

end Tag

end Schemata
