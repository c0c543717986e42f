import Schemata.Number.Shortest

/-!
# Doubles that need not be finite

Settings may hold infinities and the value that is no number. They never get into a document, and
are only written as text or compared with zero.
-/

namespace Schemata

/-- A double of any kind. -/
inductive Double where
  /-- A finite one. -/
  | finite (value : Binary64)
  /-- An infinity. -/
  | infinite (negative : Bool)
  /-- The value that is no number. -/
  | notANumber
deriving DecidableEq

namespace Double

/-- The double as text, without an exponent. -/
def render : Double → String
  | .finite x => Layout.plainAlways.render x
  | .infinite negative => if negative then "-inf" else "inf"
  | .notANumber => "NaN"

/-- Whether the double differs from zero. -/
def isNonzero : Double → Bool
  | .finite x => !x.isZero
  | _ => true

/-- A rounded decimal, or the infinity of its sign where it overflows. -/
def ofRounded (negative : Bool) : Option Binary64 → Double
  | some x => .finite x
  | none => .infinite negative

end Double

end Schemata
