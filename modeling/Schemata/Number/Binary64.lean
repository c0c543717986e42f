/-!
# Finite binary64 numbers

A finite double is a sign and a dyadic `mantissa * 2 ^ exponent` in the one form that the format
allows: at most 53 bits of mantissa, an exponent between -1074 and 971, and all 53 bits in use
unless the exponent is the smallest. Zero has a sign of its own.

* `Binary64.ofRatio?` rounds a non-negative ratio to the nearest double, ties to the even mantissa;
* `Binary64.ofDecimal?` does so for a decimal coefficient and exponent, however large they are.

Both answer `none` where the rounded value would not be finite.
-/

namespace Schemata

/-- The least mantissa with all 53 bits in use. -/
abbrev Binary64.leastNormal : Nat := 0x10000000000000

/-- The mantissas and exponents of finite doubles, each value in its one normal form. -/
def Binary64.Canonical (mantissa : Nat) (exponent : Int) : Prop :=
  mantissa < 2 * leastNormal ∧ -1074 ≤ exponent ∧ exponent ≤ 971 ∧
    (leastNormal ≤ mantissa ∨ exponent = -1074)

instance (mantissa : Nat) (exponent : Int) :
    Decidable (Binary64.Canonical mantissa exponent) := by
  unfold Binary64.Canonical; infer_instance

/-- A finite double: the sign, and the value `mantissa * 2 ^ exponent`. -/
structure Binary64 where
  /-- The sign bit; a zero may carry it. -/
  negative : Bool
  /-- The significand as a whole number. -/
  mantissa : Nat
  /-- The power of two that scales the mantissa. -/
  exponent : Int
  /-- The pair is in normal form. -/
  canonical : Binary64.Canonical mantissa exponent
deriving DecidableEq

namespace Binary64

/-! ## Construction -/

/-- Zero with the given sign. -/
def zero (negative : Bool) : Binary64 := ⟨negative, 0, -1074, by decide⟩

instance : Inhabited Binary64 := ⟨zero false⟩

/-- The double of a normal-form pair, and nothing for any other pair. -/
def ofPair? (negative : Bool) (mantissa : Nat) (exponent : Int) : Option Binary64 :=
  if h : Canonical mantissa exponent then some ⟨negative, mantissa, exponent, h⟩ else none

/-- The quotient rounded to the nearest whole number, a half going to the even neighbour. -/
def divHalfEven (num den : Nat) : Nat :=
  let q := num / den
  let twice := 2 * (num % den)
  if twice < den then q
  else if den < twice then q + 1
  else if q % 2 = 0 then q else q + 1

/-- `num / den` scaled by a power of two, again as a ratio. -/
def scale (num den : Nat) (power : Int) : Nat × Nat :=
  if 0 ≤ power then (num * Nat.pow 2 power.toNat, den)
  else (num, den * Nat.pow 2 (-power).toNat)

/-- The exponent at which a positive ratio keeps 53 bits, or the smallest one there is. -/
def exponentFor (num den : Nat) : Int :=
  let guess : Int := (num.log2 : Int) - (den.log2 : Int) - 52
  let (n, d) := scale num den (-guess)
  max (-1074) (if n / d < leastNormal then guess - 1 else guess)

/-- The double nearest to `num / den`; `none` when that would not be finite. -/
def ofRatio? (negative : Bool) (num den : Nat) : Option Binary64 :=
  if num = 0 then some (zero negative)
  else
    let e := exponentFor num den
    let (n, d) := scale num den (-e)
    let m := divHalfEven n d
    if m = 2 * leastNormal then ofPair? negative leastNormal (e + 1) else ofPair? negative m e

/-- The double nearest to `coefficient * 10 ^ power`.

Every value of 10^310 and above overflows and every value below 10^(-330) rounds to zero, so the
powers that are computed stay small whatever the exponent in the text was. -/
def ofDecimal? (negative : Bool) (coefficient : Nat) (power : Int) : Option Binary64 :=
  let digits : Int := (Nat.toDigits 10 coefficient).length
  if coefficient = 0 then some (zero negative)
  else if digits + power > 310 then none
  else if digits + power < -330 then some (zero negative)
  else if 0 ≤ power then ofRatio? negative (coefficient * Nat.pow 10 power.toNat) 1
  else ofRatio? negative coefficient (Nat.pow 10 (-power).toNat)

/-! ## Comparison -/

/-- Whether the double is one of the two zeros. -/
def isZero (x : Binary64) : Bool := x.mantissa = 0

/-- The same double with the sign of a zero dropped, so that equal values are equal terms. -/
def unsignedZero (x : Binary64) : Binary64 := if x.isZero then zero false else x

/-- Equality of values: the two zeros count as one. -/
def sameValue (x y : Binary64) : Bool := x.unsignedZero = y.unsignedZero

/-- The magnitude as a ratio of whole numbers. -/
def ratio (x : Binary64) : Nat × Nat := scale x.mantissa 1 x.exponent

/-- The signed numerator over the denominator of `ratio`. -/
def signedRatio (x : Binary64) : Int × Nat :=
  let (n, d) := x.ratio
  (if x.negative then -(n : Int) else n, d)

end Binary64

end Schemata
