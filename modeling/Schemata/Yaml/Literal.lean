import Schemata.Json.Basic
import Schemata.Number.Notation
import Schemata.Text.Hex

/-!
# Values of scalars

A plain scalar is read as the first of these that it spells: the absent value, a truth value, a
whole number, another number; everything else is text. A tag asks for one of them and refuses the
rest.

* `Literal.ofPlain?` reads a plain scalar without a tag;
* `Literal.ofTagged?` reads a scalar with one of the four standard tags.

Whole numbers that fit neither 64-bit range but would fit in 128 bits are refused; larger ones are
read as doubles. Infinities and the value that is no number have no place in a document, and become
the absent value.
-/

namespace Schemata

namespace Yaml

namespace Literal

/-- The word spells the absent value. -/
def isNull (word : String) : Bool := ["null", "Null", "NULL", "~"].contains word

/-- The truth value that a word spells. -/
def bool? (word : String) : Option Bool :=
  if ["true", "True", "TRUE"].contains word then some true
  else if ["false", "False", "FALSE"].contains word then some false
  else none

/-! ## Whole numbers -/

/-- The sign in front of a word, which may be missing, and the rest of the word. -/
def splitSign : List Char → Option Bool × List Char
  | '+' :: rest => (some false, rest)
  | '-' :: rest => (some true, rest)
  | rest => (none, rest)

/-- The whole number that digits of a base write; at least one digit. -/
def inBase? (base : Nat) (digits : List Char) : Option Nat := do
  if digits.isEmpty then none
  else
    let values ← digits.mapM Text.hexValue?
    if values.all (· < base) then some (values.foldl (fun n v => base * n + v) 0) else none

/-- Whether a word without its sign is digits behind a zero, which makes it text. -/
def isPadded : List Char → Bool
  | '0' :: c :: rest => (c :: rest).all Char.isDigit
  | _ => false

/-- The magnitude that a word without its sign writes. -/
def magnitude? : List Char → Option Nat
  | '0' :: 'x' :: digits => inBase? 16 digits
  | '0' :: 'o' :: digits => inBase? 8 digits
  | '0' :: 'b' :: digits => inBase? 2 digits
  | digits => if isPadded digits then none else inBase? 10 digits

/-- What a word comes to as a whole number. -/
inductive Whole where
  /-- A number that a document can hold. -/
  | fits (value : Int)
  /-- A number that only 128 bits hold. -/
  | tooWide
  /-- No whole number. -/
  | other
deriving DecidableEq

/-- The word read as a whole number. -/
def whole (word : List Char) : Whole :=
  let (sign, body) := splitSign word
  match magnitude? body with
  | none => .other
  | some n =>
    let value : Int := if sign = some true then -n else n
    if Number.inRange value then .fits value
    else if -0x80000000000000000000000000000000 ≤ value &&
        value < 0x100000000000000000000000000000000 then .tooWide
    else .other

/-! ## Doubles -/

/-- Whether a word spells an infinity or the value that is no number. -/
def isSpecial (word : String) : Bool :=
  [".inf", ".Inf", ".INF", "+.inf", "+.Inf", "+.INF", "-.inf", "-.Inf", "-.INF",
    ".nan", ".NaN", ".NAN"].contains word

/-- The value of a word as a double; infinities are spelled, and not overflows. -/
def float? (word : String) : Option Json :=
  if isSpecial word then some .null
  else
    let (sign, body) := splitSign word.toList
    match Decimal.Parts.split? body with
    | some parts =>
      if parts.hasDigit then
        (parts.toBinary64? (sign = some true)).map fun x => .number (.float x)
      else none
    | none => none

/-! ## Scalars -/

/-- The value of a plain scalar without a tag; nothing for a number that is too wide. -/
def ofPlain? (word : String) : Option Json :=
  if word.isEmpty || isNull word then some .null
  else match bool? word with
    | some b => some (.bool b)
    | none =>
      match whole word.toList with
      | .fits i => some (.int i)
      | .tooWide => none
      | .other =>
        if isPadded (splitSign word.toList).2 then some (.string word)
        else some ((float? word).getD (.string word))

/-- The value of a scalar with a tag that asks for a kind of value; any other tag asks for text. -/
def ofTagged? (tag word : String) : Option Json :=
  if tag = "tag:yaml.org,2002:bool" then (bool? word).map .bool
  else if tag = "tag:yaml.org,2002:int" then
    match whole word.toList with
    | .fits i => some (.int i)
    | _ => none
  else if tag = "tag:yaml.org,2002:float" then float? word
  else if tag = "tag:yaml.org,2002:null" then if isNull word then some .null else none
  else some (.string word)

end Literal

end Yaml

end Schemata
