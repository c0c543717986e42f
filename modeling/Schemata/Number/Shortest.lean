import Schemata.Number.Binary64

/-!
# The fewest digits that read back

A double is the nearest one for a whole interval of reals. `Shortest.decimal` finds the shortest
decimal inside that interval, and among those the one closest to the double itself; `Layout` says
how such a decimal is laid out as text.

* `Shortest.decimal` tries 1, 2, ... 17 digits, each time with the two neighbours of the value;
* `Layout.plainMiddle` is the text of numbers in documents, `Layout.plainAlways` that of numbers
  that become plain strings.
-/

namespace Schemata

/-- A decimal `coefficient * 10 ^ power`. -/
structure Decimal where
  /-- The digits as a whole number. -/
  coefficient : Nat
  /-- The power of ten of the last digit. -/
  power : Int
deriving DecidableEq, Repr

namespace Shortest

/-- A non-negative ratio of whole numbers. -/
abbrev Ratio := Nat × Nat

/-- `a < b` for ratios with positive denominators. -/
def Ratio.lt (a b : Ratio) : Bool := a.1 * b.2 < b.1 * a.2

/-- The ratio times a power of ten. -/
def Ratio.timesTenTo (a : Ratio) (power : Int) : Ratio :=
  if 0 ≤ power then (a.1 * Nat.pow 10 power.toNat, a.2)
  else (a.1, a.2 * Nat.pow 10 (-power).toNat)

/-- The reals that round to a double: two ends, and whether the ends belong. -/
structure Interval where
  /-- The lower end. -/
  low : Ratio
  /-- The upper end. -/
  high : Ratio
  /-- The ends round to the double too, which they do when its mantissa is even. -/
  closed : Bool

/-- The rounding interval of the magnitude of a non-zero double. -/
def interval (x : Binary64) : Interval :=
  let m := x.mantissa
  let low :=
    if m = Binary64.leastNormal ∧ -1074 < x.exponent then
      Binary64.scale (4 * m - 1) 1 (x.exponent - 2)
    else Binary64.scale (2 * m - 1) 1 (x.exponent - 1)
  ⟨low, Binary64.scale (2 * m + 1) 1 (x.exponent - 1), m % 2 = 0⟩

/-- Whether a ratio lies in the interval. -/
def Interval.contains (i : Interval) (r : Ratio) : Bool :=
  if i.closed then !Ratio.lt r i.low && !Ratio.lt i.high r
  else Ratio.lt i.low r && Ratio.lt r i.high

/-- The power of ten of the leading digit of a positive ratio, from an estimate one off at most. -/
def leadingPower (r : Ratio) : Int :=
  let bits : Int := (r.1.log2 : Int) - (r.2.log2 : Int)
  let guess := (bits * 30103).fdiv 100000
  let below := if Ratio.lt r (Ratio.timesTenTo (1, 1) guess) then guess - 1 else guess
  if Ratio.lt r (Ratio.timesTenTo (1, 1) (below + 1)) then below else below + 1

/-- The better of the two neighbours of `r` on the grid of `10 ^ power`, if one lies inside. -/
def onGrid (i : Interval) (r : Ratio) (power : Int) : Option Decimal :=
  let scaled := Ratio.timesTenTo r (-power)
  let below := scaled.1 / scaled.2
  let inside (c : Nat) : Bool := 0 < c && i.contains (Ratio.timesTenTo (c, 1) power)
  let twice := 2 * (scaled.1 % scaled.2)
  let nearest :=
    if twice < scaled.2 ∨ (twice = scaled.2 ∧ below % 2 = 0) then below else below + 1
  match inside below, inside (below + 1) with
  | true, true => some ⟨nearest, power⟩
  | true, false => some ⟨below, power⟩
  | false, true => some ⟨below + 1, power⟩
  | false, false => none

/-- The decimal without trailing zeros in its coefficient; `fuel` bounds how many are dropped. -/
def stripZeros : Nat → Decimal → Decimal
  | 0, d => d
  | fuel + 1, d =>
    if d.coefficient % 10 = 0 ∧ d.coefficient ≠ 0 then
      stripZeros fuel ⟨d.coefficient / 10, d.power + 1⟩
    else d

/-- The shortest decimal that reads back as the magnitude of `x`. -/
def decimal (x : Binary64) : Decimal :=
  if x.isZero then ⟨0, 0⟩
  else
    let r := x.ratio
    let i := interval x
    let top := leadingPower r
    match (List.range 17).findSome? fun (n : Nat) => onGrid i r (top - n) with
    | some d => stripZeros 18 d
    | none => ⟨0, 0⟩

end Shortest

/-- How a decimal is laid out. Between the two bounds on its leading power it is written with all
its places, elsewhere with an exponent. -/
structure Layout where
  /-- Smallest leading power written out; `none` for no bound. -/
  least : Option Int
  /-- Largest leading power written out; `none` for no bound. -/
  greatest : Option Int
  /-- A whole number gets a fraction digit all the same. -/
  keepsFraction : Bool

namespace Layout

/-- Numbers in documents: all places from 0.00001 up to, not including, 10^16, and always a
fraction digit; elsewhere an exponent with its sign. -/
def plainMiddle : Layout := ⟨some (-5), some 15, true⟩

/-- Numbers turned into plain strings: never an exponent, no fraction for a whole number. -/
def plainAlways : Layout := ⟨none, none, false⟩

/-- `n` zeros. -/
def zeros (n : Nat) : List Char := List.replicate n '0'

/-- The digits of a decimal with all places written out. -/
def plain (l : Layout) (digits : List Char) (power : Int) : List Char :=
  if 0 ≤ power then
    digits ++ zeros power.toNat ++ (if l.keepsFraction then ['.', '0'] else [])
  else
    let places := (-power).toNat
    if places < digits.length then
      digits.take (digits.length - places) ++ '.' :: digits.drop (digits.length - places)
    else '0' :: '.' :: zeros (places - digits.length) ++ digits

/-- The digits of a decimal with one digit before the point and a signed exponent. -/
def scientific (digits : List Char) (leading : Int) : List Char :=
  let fraction := match digits.drop 1 with
    | [] => []
    | rest => '.' :: rest
  let sign := if 0 ≤ leading then '+' else '-'
  digits.take 1 ++ fraction ++ 'e' :: sign :: Nat.toDigits 10 leading.natAbs

/-- The text of a double in this layout. -/
def render (l : Layout) (x : Binary64) : String :=
  let d := Shortest.decimal x
  let digits := Nat.toDigits 10 d.coefficient
  let leading : Int := d.power + digits.length - 1
  let body :=
    if l.least.all (· ≤ leading) && l.greatest.all (leading ≤ ·) then plain l digits d.power
    else scientific digits leading
  String.ofList (if x.negative then '-' :: body else body)

end Layout

end Schemata
