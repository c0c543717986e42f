import Schemata.Number.Basic

/-!
# Decimal notation

An unsigned decimal in text has a whole part, perhaps a fraction, perhaps an exponent.
`Decimal.Parts.split?` takes such a text apart and refuses anything left over; the formats that
read numbers then add their own rules on which parts may be empty.
-/

namespace Schemata

/-- The value of a run of decimal digits. -/
def Decimal.digitsValue (digits : List Char) : Nat :=
  digits.foldl (fun n c => 10 * n + (c.toNat - '0'.toNat)) 0

namespace Decimal

/-- The parts of an unsigned decimal as written. -/
structure Parts where
  /-- Digits before the point. -/
  whole : List Char
  /-- Digits after the point, where there is a point. -/
  fraction : Option (List Char)
  /-- Sign and digits of the exponent, where there is one. -/
  exponent : Option (Bool × List Char)

namespace Parts

/-- The exponent that stands at the end of a decimal: nothing, or `e`, a sign and digits. -/
def splitExponent? : List Char → Option (Option (Bool × List Char))
  | [] => some none
  | c :: rest =>
    if c = 'e' ∨ c = 'E' then
      let (negative, digits) := match rest with
        | '-' :: r => (true, r)
        | '+' :: r => (false, r)
        | r => (false, r)
      if digits ≠ [] ∧ digits.all Char.isDigit then some (some (negative, digits)) else none
    else none

/-- Take an unsigned decimal apart. -/
def split? (text : List Char) : Option Parts :=
  let whole := text.takeWhile Char.isDigit
  match text.dropWhile Char.isDigit with
  | '.' :: rest =>
    (splitExponent? (rest.dropWhile Char.isDigit)).map
      fun e => ⟨whole, some (rest.takeWhile Char.isDigit), e⟩
  | rest => (splitExponent? rest).map fun e => ⟨whole, none, e⟩

/-- Some digit stands before the exponent. -/
def hasDigit (p : Parts) : Bool := p.whole ≠ [] || p.fraction.any (· ≠ [])

/-- Only digits: no point and no exponent. -/
def isWhole (p : Parts) : Bool := p.fraction.isNone && p.exponent.isNone

/-- The power of ten that the exponent stands for. -/
def power (p : Parts) : Int :=
  match p.exponent with
  | none => 0
  | some (true, digits) => -(digitsValue digits : Int)
  | some (false, digits) => digitsValue digits

/-- The double nearest to the decimal, with the given sign; `none` when it is not finite. -/
def toBinary64? (negative : Bool) (p : Parts) : Option Binary64 :=
  let fraction := p.fraction.getD []
  Binary64.ofDecimal? negative (digitsValue (p.whole ++ fraction)) (p.power - fraction.length)

end Parts

end Decimal

end Schemata
