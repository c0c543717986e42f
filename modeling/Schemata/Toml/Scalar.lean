import Schemata.Number.Notation
import Schemata.Text.Hex
import Schemata.Text.Split
import Schemata.Toml.Value

/-!
# Unquoted scalars of TOML

Truth values, numbers and dates. Digits may be grouped by underscores, each between two digits.

`Scalar.ofWord?` reads a word; a date may be followed by a time in a second word, and
`Scalar.joinTime?` puts the two together.
-/

namespace Schemata

namespace Toml

namespace Scalar

/-! ## Numbers -/

/-- A word without the underscores that group its digits; `behindDigit` tells what stands in front
of it. -/
def ungroup? (isDigit : Char → Bool) (behindDigit : Bool) : List Char → Option (List Char)
  | [] => some []
  | '_' :: c :: rest =>
    if behindDigit && isDigit c then (ungroup? isDigit true rest).map (c :: ·) else none
  | c :: rest =>
    if c = '_' then none else (ungroup? isDigit (isDigit c) rest).map (c :: ·)

/-- Whether a character is a digit of a base. -/
def isDigitOf (base : Nat) (c : Char) : Bool := (Text.hexValue? c).any (· < base)

/-- A whole number that fits 64 bits. -/
def fitting? (i : Int) : Option Value :=
  if -0x8000000000000000 ≤ i && i < 0x8000000000000000 then some (.int i) else none

/-- The whole number that digits of a base write. -/
def inBase? (base : Nat) (word : List Char) : Option Value := do
  let digits ← ungroup? (isDigitOf base) false word
  if digits.isEmpty || !digits.all (isDigitOf base) then none
  else
    let values ← digits.mapM Text.hexValue?
    let n : Nat := values.foldl (fun n v => base * n + v) 0
    fitting? n

/-- Whether a whole part has no zero in front of other digits. -/
def isUnpadded : List Char → Bool
  | [] => false
  | ['0'] => true
  | c :: _ => c ≠ '0'

/-- The number that an unsigned word writes, with the given sign. A positive number that overflows
is refused. -/
def number? (negative : Bool) (word : List Char) : Option Value := do
  let parts ← Decimal.Parts.split? (← ungroup? Char.isDigit false word)
  if !isUnpadded parts.whole || parts.fraction = some [] then none
  else if parts.isWhole then
    let n := Decimal.digitsValue parts.whole
    fitting? (if negative then -(n : Int) else n)
  else
    match parts.toBinary64? negative with
    | some x => some (.float (.finite x))
    | none => if negative then some (.float (.infinite true)) else none

/-- The word behind a sign. -/
def signed? (negative : Bool) (word : List Char) : Option Value :=
  if word = "inf".toList then some (.float (.infinite negative))
  else if word = "nan".toList then some (.float .notANumber)
  else number? negative word

/-! ## Dates and times -/

/-- The number that a given count of digits writes, if it lies within bounds. -/
def field? (count low high : Nat) (digits : List Char) : Option Nat :=
  if digits.length = count && digits.all Char.isDigit then
    let n := Decimal.digitsValue digits
    if low ≤ n && n ≤ high then some n else none
  else none

/-- How many days a month has. -/
def daysIn (year month : Nat) : Nat :=
  if month = 2 then
    if year % 4 = 0 && (year % 100 ≠ 0 || year % 400 = 0) then 29 else 28
  else if month = 4 || month = 6 || month = 9 || month = 11 then 30
  else 31

/-- Whether a word is a date. -/
def isDate (word : List Char) : Bool :=
  match Text.splitBy (· = '-') word with
  | [year, month, day] =>
    ((do
      let y ← field? 4 0 9999 year
      let m ← field? 2 1 12 month
      field? 2 1 (daysIn y m) day) : Option Nat).isSome
  | _ => false

/-- A time of day as it is written back: a fraction of a second has at most nine digits, and no
zeros at its end. -/
def time? (word : List Char) : Option (List Char) := do
  let clock := word.takeWhile (· ≠ '.')
  match Text.splitBy (· = ':') clock with
  | [hours, minutes, seconds] =>
    let _ ← field? 2 0 23 hours
    let _ ← field? 2 0 59 minutes
    let _ ← field? 2 0 60 seconds
    match word.dropWhile (· ≠ '.') with
    | [] => some clock
    | _ :: digits =>
      if digits.isEmpty || !digits.all Char.isDigit then none
      else
        let kept := ((digits.take 9).reverse.dropWhile (· = '0')).reverse
        some (if kept.isEmpty then clock else clock ++ '.' :: kept)
  | _ => none

/-- A time of day with perhaps an offset, as it is written back. -/
def timeWithOffset? (word : List Char) : Option (List Char) := do
  let clock := word.takeWhile fun c => c.isDigit || c = ':' || c = '.'
  let time ← time? clock
  match word.drop clock.length with
  | [] => some time
  | ['Z'] | ['z'] => some (time ++ ['Z'])
  | sign :: offset =>
    if sign = '+' || sign = '-' then
      match Text.splitBy (· = ':') offset with
      | [hours, minutes] =>
        let _ ← field? 2 0 23 hours
        let _ ← field? 2 0 59 minutes
        some (time ++ sign :: offset)
      | _ => none
    else none

/-- The date, time or both that a word writes. -/
def date? (word : List Char) : Option Value :=
  let day := word.take 10
  if isDate day then
    match word.drop 10 with
    | [] => some (.date (String.ofList day))
    | c :: rest =>
      if c = 'T' || c = 't' then
        (timeWithOffset? rest).map fun time => .date (String.ofList (day ++ 'T' :: time))
      else none
  else (time? word).map fun time => .date (String.ofList time)

/-- A date and the time that follows it in another word. -/
def joinTime? (first second : List Char) : Option Value :=
  if isDate first then
    (timeWithOffset? second).map fun time => .date (String.ofList (first ++ 'T' :: time))
  else none

/-! ## Words -/

/-- The value that a word writes. -/
def ofWord? (word : List Char) : Option Value :=
  match word with
  | ['t', 'r', 'u', 'e'] => some (.bool true)
  | ['f', 'a', 'l', 's', 'e'] => some (.bool false)
  | '0' :: 'x' :: digits => inBase? 16 digits
  | '0' :: 'o' :: digits => inBase? 8 digits
  | '0' :: 'b' :: digits => inBase? 2 digits
  | '+' :: rest => signed? false rest
  | '-' :: rest => signed? true rest
  | word => (date? word).or (signed? false word)

end Scalar

end Toml

end Schemata
