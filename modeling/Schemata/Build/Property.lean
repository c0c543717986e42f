import Schemata.Error
import Schemata.Model.Node

/-!
# Reading the properties of a declaration

A declaration is a mapping. Each reader (`number`, `count`, `size_bound`, `base`, `text`, `xml`)
looks at one key, treats an explicit `null` like a missing key (`prop`), and says what is wrong with
a value of another form.
-/

namespace Schemata

/-- The members of a declaration. -/
abbrev Props := List (String × Json)

namespace Props

/-- Whether a key is present, whatever its value. -/
def has (props : Props) (key : String) : Bool := (props.lookup key).isSome

/-- The value under a key, unless it is absent or `null`. -/
def value? (props : Props) (key : String) : Option Json :=
  (props.lookup key).filter fun v => !v.isNull

/-- A number under a key. -/
def number? (props : Props) (name key : String) : Except SchemaError (Option Number) :=
  match props.value? key with
  | none => .ok none
  | some (.number n) => .ok (some n)
  | some other => .error (.malformedType name (.notNumber key other))

/-- A count under a key. -/
def count? (props : Props) (name key : String) : Except SchemaError (Option Nat) :=
  match props.value? key with
  | none => .ok none
  | some v =>
    match v.nat? with
    | some n => .ok (some n)
    | none => .error (.malformedType name (.notCount key v))

/-- A count under a key, or else under a second one. -/
def countOr? (props : Props) (name key fallback : String) :
    Except SchemaError (Option Nat) := do
  match ← props.count? name key with
  | some n => return some n
  | none => props.count? name fallback

/-- The base of literals. -/
def base? (props : Props) (name : String) : Except SchemaError (Option Nat) := do
  match ← props.count? name "base" with
  | none => return none
  | some b =>
    if b < UInt32.size then return some b else .error (.malformedType name (.baseOutOfRange b))

/-- A text under a key. -/
def text? (props : Props) (name key : String) : Except SchemaError (Option String) :=
  match props.value? key with
  | none => .ok none
  | some (.string s) => .ok (some s)
  | some other => .error (.malformedType name (.notText key other))

/-- The metadata of the format; none is the empty mapping. -/
def xml (props : Props) (name : String) : Except SchemaError (List (String × Json)) :=
  match props.value? "xml" with
  | none => .ok []
  | some (.object members) => .ok members
  | some _ => .error (.malformedType name .xmlNotMapping)

/-- The `required` flag; without one, a `use` of `required` counts. -/
def required (props : Props) : Bool :=
  match props.lookup "required" with
  | some (.bool flag) => flag
  | _ => (props.lookup "use").bind Json.string? = some "required"

/-- The field names listed as required. -/
def requiredNames (props : Props) : List String :=
  match props.lookup "required" with
  | some (.array names) => names.filterMap Json.string?
  | _ => []

/-- The members that make a bare reference site: the attributes of a container are not those of
its item or value type. -/
def referenceOnly (props : Props) : Props := props.filter fun (k, _) => k = "$ref"

end Props

/-- The words that mean true and false, in lower case. -/
def boolWord? (word : String) : Option Bool :=
  if ["true", "yes", "on", "1"].contains word then some true
  else if ["false", "no", "off", "0"].contains word then some false
  else none

end Schemata
