import Schemata.Json.Pointer
import Schemata.Json.Printer

/-!
# Meta-schemas

A meta-schema says which documents are acceptable. It is itself a document: a truth value, or a
mapping from keywords to what they demand. The keywords are those of draft 7 that restrict types,
members, items, sizes, ranges and single values.

* `Schema.check` lists every violation of a document, in the order of the keywords;
* `Schema.ofJson?` reads a meta-schema, or says why the document is none.
-/

namespace Schemata

/-! ## Types of values -/

/-- The types that a meta-schema can ask for, in alphabetical order. -/
inductive ValueType where
  /-- A sequence. -/
  | array
  /-- A truth value. -/
  | boolean
  /-- A number with a whole value. -/
  | integer
  /-- The absent value. -/
  | null
  /-- Any number. -/
  | number
  /-- A mapping. -/
  | object
  /-- A text. -/
  | string
deriving DecidableEq

namespace ValueType

/-- All types, in alphabetical order. -/
def all : List ValueType := [.array, .boolean, .integer, .null, .number, .object, .string]

/-- The word for a type. -/
def name : ValueType → String
  | .array => "array"
  | .boolean => "boolean"
  | .integer => "integer"
  | .null => "null"
  | .number => "number"
  | .object => "object"
  | .string => "string"

/-- The type of a word. -/
def ofName? (name : String) : Option ValueType := all.find? (·.name = name)

/-- Whether a value is of a type. -/
def accepts : ValueType → Json → Bool
  | .array, .array _ => true
  | .boolean, .bool _ => true
  | .integer, .number n => n.isWhole
  | .null, .null => true
  | .number, .number _ => true
  | .object, .object _ => true
  | .string, .string _ => true
  | _, _ => false

end ValueType

/-! ## Violations -/

/-- What is wrong with a value. -/
inductive Complaint where
  /-- The value has none of the types, given in alphabetical order. -/
  | wrongType (value : Json) (types : List ValueType)
  /-- A member is missing. -/
  | missing (key : String)
  /-- Members that are not expected. -/
  | unexpected (keys : List String)
  /-- The value is none of a list. -/
  | notListed (value : Json) (options : List Json)
  /-- The value is not the one expected. -/
  | notConstant (expected : Json)
  /-- The number is too small. -/
  | belowMinimum (value : Json) (limit : Number)
  /-- The number is too large. -/
  | aboveMaximum (value : Json) (limit : Number)
  /-- The text is too short. -/
  | tooShort (value : Json) (limit : Nat)
  /-- The text is too long. -/
  | tooLong (value : Json) (limit : Nat)
  /-- The sequence has too few items. -/
  | tooFew (value : Json) (limit : Nat)
  /-- The sequence has too many items. -/
  | tooMany (value : Json) (limit : Nat)
  /-- No value is acceptable. -/
  | forbidden (value : Json)
  /-- None of the alternatives of a keyword accepts the value. -/
  | noAlternative (value : Json)
  /-- The items of a sequence are not pairwise different. -/
  | repeated (value : Json)
deriving DecidableEq

namespace Complaint

/-- A count with its noun, which takes an s unless the count is one. -/
def counted (n : Nat) (noun : String) : String := s!"{n} {noun}" ++ if n = 1 then "" else "s"

/-- The wording of a complaint. -/
def message : Complaint → String
  | .wrongType v [t] => v.compact ++ " is not of type \"" ++ t.name ++ "\""
  | .wrongType v types =>
    v.compact ++ " is not of types " ++
      ", ".intercalate (types.map fun t => "\"" ++ t.name ++ "\"")
  | .missing key => Json.quote key ++ " is a required property"
  | .unexpected keys =>
    "Additional properties are not allowed (" ++
      ", ".intercalate (keys.map fun k => "'" ++ k ++ "'") ++
      (match keys with
        | [_] => " was"
        | _ => " were") ++ " unexpected)"
  | .notListed v options => v.compact ++ " is not one of " ++ (Json.array options).compact
  | .notConstant expected => expected.compact ++ " was expected"
  | .belowMinimum v limit => v.compact ++ " is less than the minimum of " ++ limit.render
  | .aboveMaximum v limit => v.compact ++ " is greater than the maximum of " ++ limit.render
  | .tooShort v limit => v.compact ++ " is shorter than " ++ counted limit "character"
  | .tooLong v limit => v.compact ++ " is longer than " ++ counted limit "character"
  | .tooFew v limit => v.compact ++ " has less than " ++ counted limit "item"
  | .tooMany v limit => v.compact ++ " has more than " ++ counted limit "item"
  | .forbidden v => "False schema does not allow " ++ v.compact
  | .noAlternative v =>
    v.compact ++ " is not valid under any of the schemas listed in the 'anyOf' keyword"
  | .repeated v => v.compact ++ " has non-unique elements"

end Complaint

/-- A complaint and the place of the value. -/
structure Violation where
  /-- The keys down to the value. -/
  path : List String
  /-- What is wrong. -/
  complaint : Complaint
deriving DecidableEq

/-- The violation as a line: its place as a pointer, a slash for the whole document. -/
def Violation.render (v : Violation) : String :=
  (if v.path.isEmpty then "/" else Pointer.write v.path) ++ ": " ++ v.complaint.message

/-! ## Meta-schemas -/

mutual
/-- A meta-schema. -/
inductive Schema
  /-- Accepts everything, or nothing. -/
  | always (accepts : Bool)
  /-- Accepts what satisfies every rule. -/
  | rules (rules : List Rule)
/-- The demand of one keyword. Values that the keyword is not about satisfy it. -/
inductive Rule
  /-- The value has one of the types. -/
  | type (types : List ValueType)
  /-- The value is one of a list. -/
  | enum (options : List Json)
  /-- The value is a given one. -/
  | const (expected : Json)
  /-- A mapping has the keys. -/
  | required (keys : List String)
  /-- Members of a mapping satisfy the schema of their key. -/
  | properties (known : List (String × Schema))
  /-- Members satisfy the schema of their key, and there are no others. -/
  | closed (known : List (String × Schema))
  /-- Members satisfy the schema of their key, and all others satisfy one schema. -/
  | additional (known : List (String × Schema)) (other : Schema)
  /-- A mapping is empty. -/
  | noMembers
  /-- Every item of a sequence satisfies the schema. -/
  | items (schema : Schema)
  /-- A number is not below the limit. -/
  | minimum (limit : Number)
  /-- A number is not above the limit. -/
  | maximum (limit : Number)
  /-- A text has at least so many characters. -/
  | minLength (limit : Nat)
  /-- A text has at most so many characters. -/
  | maxLength (limit : Nat)
  /-- A sequence has at least so many items. -/
  | minItems (limit : Nat)
  /-- A sequence has at most so many items. -/
  | maxItems (limit : Nat)
end

/-! ## Checking -/

namespace Json

/-- The double nearest to a number. -/
def nearest (n : Number) : Binary64 :=
  match n with
  | .int i => (Binary64.ofRatio? (i < 0) i.natAbs 1).getD (Binary64.zero false)
  | .float x => x

/-- Equality of numbers: exact between whole numbers, otherwise as doubles. -/
def equalNumbers (a b : Number) : Bool :=
  match a, b with
  | .int i, .int j => i = j
  | a, b => (nearest a).sameValue (nearest b)

mutual
/-- Equality in the sense of meta-schemas: numbers by value, mappings member by member. -/
def equalValue : Json → Json → Bool
  | .null, .null => true
  | .bool a, .bool b => a = b
  | .number a, .number b => equalNumbers a b
  | .string a, .string b => a = b
  | .array a, .array b => equalItems a b
  | .object a, .object b => equalMembers a b
  | _, _ => false
/-- Equality of sequences. -/
def equalItems : List Json → List Json → Bool
  | [], [] => true
  | a :: as, b :: bs => equalValue a b && equalItems as bs
  | _, _ => false
/-- Equality of member lists in order. -/
def equalMembers : List (String × Json) → List (String × Json) → Bool
  | [], [] => true
  | (k, a) :: as, (l, b) :: bs => k = l && equalValue a b && equalMembers as bs
  | _, _ => false
end

end Json

namespace Schema

/-- A complaint, if a demand is not met. -/
def violationUnless (met : Bool) (path : List String) (complaint : Complaint) : List Violation :=
  if met then [] else [⟨path, complaint⟩]

/-- The violations of members in document order: those of the schema that goes with a key, and
one for all keys that go with none. -/
def closedViolations (path : List String)
    (checkMember : String → Json → Option (List Violation)) (members : List (String × Json)) :
    List Violation :=
  let unknown := (members.filter fun (k, v) => (checkMember k v).isNone).map (·.1)
  members.flatMap (fun (k, v) => (checkMember k v).getD []) ++
    violationUnless unknown.isEmpty path (.unexpected unknown)

/-- The violations of items in order, each at its index. -/
def itemViolations (checkItem : String → Json → List Violation) (items : List Json) :
    List Violation :=
  (items.mapIdx fun i v => checkItem (toString i) v).flatten

mutual
/-- Every violation of a value at a path. -/
def check (path : List String) (value : Json) : Schema → List Violation
  | .always accepts => violationUnless accepts path (.forbidden value)
  | .rules demands => checkRules path value demands
/-- The violations of rules in order. -/
def checkRules (path : List String) (value : Json) : List Rule → List Violation
  | [] => []
  | r :: rest => checkRule path value r ++ checkRules path value rest
/-- The violations of one rule. -/
def checkRule (path : List String) (value : Json) : Rule → List Violation
  | .type types => violationUnless (types.any (·.accepts value)) path (.wrongType value types)
  | .enum options => violationUnless (options.any value.equalValue) path (.notListed value options)
  | .const expected => violationUnless (value.equalValue expected) path (.notConstant expected)
  | .required keys =>
    match value with
    | .object members =>
      (keys.filter fun k => (members.lookup k).isNone).map fun k => ⟨path, .missing k⟩
    | _ => []
  | .properties known =>
    match value with
    | .object members => checkKnown path members known
    | _ => []
  | .closed known =>
    match value with
    | .object members =>
      closedViolations path (fun key v => checkMember path key v known) members
    | _ => []
  | .additional known other =>
    match value with
    | .object members =>
      members.flatMap fun (k, v) =>
        (checkMember path k v known).getD (check (path ++ [k]) v other)
    | _ => []
  | .noMembers =>
    match value with
    | .object ((_, v) :: _) => [⟨path, .forbidden v⟩]
    | _ => []
  | .items schema =>
    match value with
    | .array items => itemViolations (fun i v => check (path ++ [i]) v schema) items
    | _ => []
  | .minimum limit =>
    match value with
    | .number n => violationUnless (!n.ltValue limit) path (.belowMinimum value limit)
    | _ => []
  | .maximum limit =>
    match value with
    | .number n => violationUnless (!limit.ltValue n) path (.aboveMaximum value limit)
    | _ => []
  | .minLength limit =>
    match value with
    | .string s => violationUnless (limit ≤ s.length) path (.tooShort value limit)
    | _ => []
  | .maxLength limit =>
    match value with
    | .string s => violationUnless (s.length ≤ limit) path (.tooLong value limit)
    | _ => []
  | .minItems limit =>
    match value with
    | .array items => violationUnless (limit ≤ items.length) path (.tooFew value limit)
    | _ => []
  | .maxItems limit =>
    match value with
    | .array items => violationUnless (items.length ≤ limit) path (.tooMany value limit)
    | _ => []
/-- The violations of members whose keys have a schema, in the order of the schemas. -/
def checkKnown (path : List String) (members : List (String × Json)) :
    List (String × Schema) → List Violation
  | [] => []
  | (k, s) :: rest =>
    (match members.lookup k with
      | some v => check (path ++ [k]) v s
      | none => []) ++ checkKnown path members rest
/-- The violations of a member under the schema of its key; nothing when it has none. -/
def checkMember (path : List String) (key : String) (value : Json) :
    List (String × Schema) → Option (List Violation)
  | [] => none
  | (k, s) :: rest =>
    if k = key then some (check (path ++ [k]) value s) else checkMember path key value rest
end

/-- Every violation of a document. -/
def violations (s : Schema) (document : Json) : List Violation := check [] document s

end Schema

end Schemata
