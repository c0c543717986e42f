import Schemata.Number.Shortest

/-!
# Numbers of a document

A number is a whole number or a double, and the two never mix: `1` and `1.0` are different
numbers. Two doubles are the same number when their values are, so `0.0` and `-0.0` agree.
-/

namespace Schemata

/-- A number as it stands in a document. -/
inductive Number where
  /-- A whole number of the signed or unsigned 64-bit range. -/
  | int (value : Int)
  /-- A finite double. -/
  | float (value : Binary64)
deriving DecidableEq, Inhabited

namespace Number

/-- The number with the sign of a zero dropped: the one term for its value. -/
def normal : Number → Number
  | .int i => .int i
  | .float x => .float x.unsignedZero

/-- Equality of numbers: whole numbers and doubles differ, the two zeros agree. -/
def same (a b : Number) : Bool := a.normal = b.normal

/-- Whether the number is not zero. -/
def isNonzero : Number → Bool
  | .int i => i ≠ 0
  | .float x => !x.isZero

/-- The number as a count: a whole number that is not negative. -/
def toNat? : Number → Option Nat
  | .int i => if 0 ≤ i then some i.toNat else none
  | .float _ => none

/-- A whole number of the 64-bit ranges, signed below zero and unsigned above. -/
def inRange (i : Int) : Bool := -0x8000000000000000 ≤ i && i < UInt64.size

/-- The text of the number in a document. -/
def render : Number → String
  | .int i => toString i
  | .float x => Layout.plainMiddle.render x

/-- The value as a signed numerator over a positive denominator. -/
def signedRatio : Number → Int × Nat
  | .int i => (i, 1)
  | .float x => x.signedRatio

/-- Order by value, across whole numbers and doubles. -/
def ltValue (a b : Number) : Bool :=
  let (n, d) := a.signedRatio
  let (m, e) := b.signedRatio
  n * e < m * d

/-- Equality by value, across whole numbers and doubles. -/
def eqValue (a b : Number) : Bool :=
  let (n, d) := a.signedRatio
  let (m, e) := b.signedRatio
  n * e = m * d

/-- Whether the value is a whole number, however it is written. -/
def isWhole (a : Number) : Bool :=
  let (n, d) := a.signedRatio
  n % d = 0

end Number

end Schemata
