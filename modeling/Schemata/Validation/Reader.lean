import Schemata.Validation.Schema

/-!
# Reading a meta-schema

A document is a meta-schema when it is a truth value or a mapping whose keywords hold what they
should. `Schema.defect?` looks for the first keyword that does not, in the order in which draft 7
declares its keywords; `Schema.ofJson` then reads the rules in the order of the document.
-/

namespace Schemata

namespace Schema

/-! ## Defects -/

/-- What is wrong with a count: it is no whole number, or it is negative. -/
def countDefect? (value : Json) : Option Complaint :=
  match value with
  | .number (.int i) => if i < 0 then some (.belowMinimum value (.int 0)) else none
  | _ => some (.wrongType value [.integer])

/-- What is wrong with a value that has to be of one type. -/
def typeDefect? (type : ValueType) (value : Json) : Option Complaint :=
  if type.accepts value then none else some (.wrongType value [type])

/-- Whether a value names a type. -/
def namesType (value : Json) : Bool := (value.string?.bind ValueType.ofName?).isSome

/-- Whether no item of a sequence occurs again further on. -/
def allDifferent : List Json → Bool
  | [] => true
  | a :: rest => !rest.any a.equalValue && allDifferent rest

/-- What is wrong with the value of `type`. -/
def typesDefect? (value : Json) : Option Complaint :=
  let fine := match value with
    | .array items => !items.isEmpty && items.all namesType && allDifferent items
    | other => namesType other
  if fine then none else some (.noAlternative value)

/-- What is wrong with the value of `required`. -/
def requiredDefect? (value : Json) : Option Complaint :=
  match value with
  | .array items =>
    match items.find? fun v => !ValueType.string.accepts v with
    | some v => some (.wrongType v [.string])
    | none => if allDifferent items then none else some (.repeated value)
  | other => some (.wrongType other [.array])

/-- Keywords in the order in which they are looked at. -/
def keywordOrder : List String :=
  ["$id", "$schema", "$comment", "title", "description", "maximum", "minimum", "maxLength",
    "minLength", "items", "maxItems", "minItems", "required", "additionalProperties",
    "properties", "enum", "type"]

mutual
/-- The first thing that is wrong with a meta-schema. -/
def defect? : Json → Option Complaint
  | .bool _ => none
  | .object members =>
    let found := memberDefects members
    keywordOrder.findSome? fun k => (found.lookup k).join
  | other => some (.wrongType other [.boolean, .object])
/-- What is wrong with each keyword. -/
def memberDefects : List (String × Json) → List (String × Option Complaint)
  | [] => []
  | (k, v) :: rest =>
    (k,
      if k = "$id" || k = "$schema" || k = "$comment" || k = "title" || k = "description" then
        typeDefect? .string v
      else if k = "maximum" || k = "minimum" then typeDefect? .number v
      else if k = "maxLength" || k = "minLength" || k = "maxItems" || k = "minItems" then
        countDefect? v
      else if k = "required" then requiredDefect? v
      else if k = "enum" then typeDefect? .array v
      else if k = "type" then typesDefect? v
      else if k = "additionalProperties" then defect? v
      else if k = "items" then
        match v with
        | .array schemas =>
          if schemas.isEmpty || anyDefect schemas then some (.noAlternative v) else none
        | .object members =>
          if (defect? (.object members)).isSome then some (.noAlternative v) else none
        | .bool _ => none
        | _ => some (.noAlternative v)
      else if k = "properties" then
        match v with
        | .object schemas => firstDefect? schemas
        | other => some (.wrongType other [.object])
      else none) :: memberDefects rest
/-- Whether something is wrong with one of several meta-schemas. -/
def anyDefect : List Json → Bool
  | [] => false
  | a :: rest => (defect? a).isSome || anyDefect rest
/-- The first thing that is wrong with meta-schemas under keys. -/
def firstDefect? : List (String × Json) → Option Complaint
  | [] => none
  | (_, a) :: rest => (defect? a).or (firstDefect? rest)
end

/-! ## Rules -/

/-- The meta-schemas inside the value of a keyword. -/
inductive Part where
  /-- The keyword holds no meta-schema. -/
  | plain
  /-- The keyword holds one. -/
  | schema (s : Schema)
  /-- The keyword holds one for each of several keys. -/
  | schemas (known : List (String × Schema))

/-- The types that a value of `type` names, in alphabetical order. -/
def typesOf (value : Json) : List ValueType :=
  let words := match value with
    | .array items => items.filterMap Json.string?
    | other => other.string?.toList
  ValueType.all.filter fun t => words.contains t.name

/-- The rule of one keyword, given the schemas of known members and whether others are free. -/
def ruleOf? (known : Option (List (String × Schema))) (open_ : Bool) (keyword : String)
    (value : Json) (part : Part) : Option Rule :=
  match keyword, value, part with
  | "type", v, _ => some (.type (typesOf v))
  | "enum", .array options, _ => some (.enum options)
  | "const", v, _ => some (.const v)
  | "required", .array keys, _ => some (.required (keys.filterMap Json.string?))
  | "properties", _, .schemas known => if open_ then some (.properties known) else none
  | "additionalProperties", .bool true, _ => none
  | "additionalProperties", .bool false, _ =>
    match known with
    | some known => some (.closed known)
    | none => some .noMembers
  | "additionalProperties", _, .schema s => some (.additional (known.getD []) s)
  | "items", .array _, _ => none
  | "items", _, .schema s => some (.items s)
  | "minimum", .number n, _ => some (.minimum n)
  | "maximum", .number n, _ => some (.maximum n)
  | "minLength", v, _ => v.nat?.map .minLength
  | "maxLength", v, _ => v.nat?.map .maxLength
  | "minItems", v, _ => v.nat?.map .minItems
  | "maxItems", v, _ => v.nat?.map .maxItems
  | _, _, _ => none

/-- The rules of keywords in order. -/
def assemble (members : List (String × Json)) (parts : List Part) : List Rule :=
  let pairs := members.zip parts
  let known := pairs.findSome? fun ((k, _), part) =>
    match k, part with
    | "properties", .schemas known => some known
    | _, _ => none
  let open_ := match members.lookup "additionalProperties" with
    | some (.bool false) => false
    | some (.object _) => false
    | _ => true
  pairs.filterMap fun ((k, v), part) => ruleOf? known open_ k v part

mutual
/-- The meta-schema that a document without defects spells. -/
def ofJson : Json → Schema
  | .bool b => .always b
  | .object members => .rules (assemble members (partsOf members))
  | _ => .always true
/-- The meta-schemas inside keywords. -/
def partsOf : List (String × Json) → List Part
  | [] => []
  | (k, v) :: rest =>
    (if k = "items" || k = "additionalProperties" then .schema (ofJson v)
      else if k = "properties" then
        match v with
        | .object schemas => .schemas (keyedOf schemas)
        | _ => .plain
      else .plain) :: partsOf rest
/-- Meta-schemas under keys. -/
def keyedOf : List (String × Json) → List (String × Schema)
  | [] => []
  | (k, v) :: rest => (k, ofJson v) :: keyedOf rest
end

/-- The meta-schema that a document spells, or why it spells none. -/
def ofJson? (document : Json) : Except Complaint Schema :=
  match defect? document with
  | some c => .error c
  | none => .ok (ofJson document)

end Schema

end Schemata
