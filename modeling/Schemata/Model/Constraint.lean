import Schemata.Json.Basic
import Schemata.Text.Split

/-!
# Constraints

A constraint says of a field that its values are unique inside a scope, or that they refer to the
values of another constraint. The scope is a path; its last segment (`scope_name`) names the element
or the field that the constraint is attached to. `Constraint.ofEntry` (`from_entry`) reads one.
-/

namespace Schemata

/-- What a constraint demands of its field. -/
inductive ConstraintRule where
  /-- Values differ among the siblings inside the scope. -/
  | unique
  /-- Values are among those of the unique constraint `refer`. -/
  | keyref (refer : String)
deriving DecidableEq, Inhabited

/-- An identity or referential constraint. -/
structure Constraint where
  /-- What is demanded. -/
  rule : ConstraintRule
  /-- The name of the constraint. -/
  id : String
  /-- The path of its scope. -/
  scope : String
  /-- The field it is about. -/
  field : String
deriving DecidableEq, Inhabited

namespace Constraint

/-- The last segment of the scope, slashes at its end left aside. -/
def scopeName (c : Constraint) : String :=
  let trimmed := (c.scope.toList.reverse.dropWhile (· = '/')).reverse
  String.ofList ((Text.splitBy (· = '/') trimmed).getLastD [])

/-- The constraint as a document value. -/
def toJson (c : Constraint) : Json :=
  match c.rule with
  | .unique =>
    .object [("type", .string "unique"), ("id", .string c.id), ("scope", .string c.scope),
      ("field", .string c.field)]
  | .keyref refer =>
    .object [("type", .string "keyref"), ("id", .string c.id), ("scope", .string c.scope),
      ("refer", .string refer), ("field", .string c.field)]

end Constraint

/-! ## Entries of a document -/

/-- Why an entry is no constraint. -/
inductive ConstraintDefect where
  /-- The entry is not a mapping. -/
  | notMapping
  /-- A key that is needed is missing. -/
  | missing (key : String)
  /-- A key holds something other than a text or a number. -/
  | notText (key : String)
  /-- The entry says neither `unique` nor `keyref`. -/
  | noRule
deriving DecidableEq

/-- The wording of a defect. -/
def ConstraintDefect.message : ConstraintDefect → String
  | .notMapping => "constraint must be a mapping"
  | .missing key => s!"missing key \"{key}\""
  | .notText key => s!"key \"{key}\" must be a string"
  | .noRule => "neither \"unique\" nor \"keyref\" is set"

namespace Constraint

/-- The text under a key of an entry; a number counts as its text. -/
def textUnder (members : List (String × Json)) (key : String) :
    Except ConstraintDefect String :=
  match members.lookup key with
  | some (.string s) => .ok s
  | some (.number n) => .ok n.render
  | some _ => .error (.notText key)
  | none => .error (.missing key)

/-- The constraint that an entry declares. -/
def ofEntry (entry : Json) : Except ConstraintDefect Constraint := do
  let some members := entry.members? | .error .notMapping
  if (members.lookup "unique").isSome then
    let id ← textUnder members "id"
    let scope ← textUnder members "scope"
    let field ← textUnder members "field"
    return ⟨.unique, id, scope, field⟩
  else if (members.lookup "keyref").isSome then
    let id ← textUnder members "id"
    let scope ← textUnder members "scope"
    let refer ← textUnder members "refer"
    let field ← textUnder members "field"
    return ⟨.keyref refer, id, scope, field⟩
  else .error .noRule

end Constraint

end Schemata
