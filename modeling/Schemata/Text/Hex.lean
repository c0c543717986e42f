/-!
# Hexadecimal digits

The value of a digit in either case, and the character whose code point digits write.
-/

namespace Schemata

namespace Text

/-- The value of a hexadecimal digit. -/
def hexValue? (c : Char) : Option Nat :=
  if c.isDigit then some (c.toNat - '0'.toNat)
  else if 'a' ≤ c ∧ c ≤ 'f' then some (c.toNat - 'a'.toNat + 10)
  else if 'A' ≤ c ∧ c ≤ 'F' then some (c.toNat - 'A'.toNat + 10)
  else none

/-- The character whose code point the digits write; surrogates are none. -/
def codePoint? (digits : List Char) : Option Char := do
  let values ← digits.mapM hexValue?
  let code := values.foldl (fun n v => 16 * n + v) 0
  if code.isValidChar then some (Char.ofNat code) else none

end Text

end Schemata
