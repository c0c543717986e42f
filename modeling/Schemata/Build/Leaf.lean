import Schemata.Build.Property
import Schemata.Text.CharClass

/-!
# Leaf declarations

How the declaration of a scalar or an enumeration becomes a leaf kind (`integer`, `float`,
`boolean`, `string`, `enum_type`). Bounds and patterns of the wrong form are errors; a boolean
default that cannot be read (`parse_bool`) is no default.
-/

namespace Schemata

/-- The truth value that a literal stands for: itself, a word in any case and with blanks around
it, or a number. -/
def Json.asBool? : Json → Option Bool
  | .bool b => some b
  | .string s =>
    boolWord? (Text.asciiLower (String.ofList (Text.trimBy CharClass.isWhiteSpace s.toList)))
  | .number n => some n.isNonzero
  | _ => none

namespace Leaf

/-- The text of a literal of an enumeration. -/
def literal (name : String) : Json → Except SchemaError String
  | .string s => .ok s
  | .number n => .ok n.render
  | .bool b => .ok (if b then "true" else "false")
  | other => .error (.malformedType name (.literalNotScalar other))

/-- A whole-number declaration. -/
def integerOf (name : String) (props : Props) : Except SchemaError Leaf := do
  let base := (← props.base? name).getD 10
  let min ← props.number? name "min"
  let max ← props.number? name "max"
  return .integer ⟨base, props.value? "default", min, max⟩

/-- A floating-point declaration. -/
def floatOf (name : String) (props : Props) : Except SchemaError Leaf := do
  let min ← props.number? name "min"
  let max ← props.number? name "max"
  return .float ⟨props.value? "default", min, max⟩

/-- A truth-value declaration. -/
def booleanOf (props : Props) : Leaf := .boolean ((props.value? "default").bind Json.asBool?)

/-- A text declaration. -/
def stringOf (name : String) (props : Props) : Except SchemaError Leaf := do
  let pattern ← props.text? name "pattern"
  let min ← props.count? name "min"
  let max ← props.count? name "max"
  return .string ⟨props.value? "default", pattern, min, max⟩

/-- A declaration with a list of literals. -/
def enumOf (name : String) (base : Tag) (props : Props) : Except SchemaError Leaf :=
  match props.lookup "enum" with
  | some (.array literals) => do
    let values ← literals.mapM (literal name)
    return .enum ⟨base, values, props.value? "default"⟩
  | _ => .error (.malformedType name .enumNotSequence)

end Leaf

end Schemata
