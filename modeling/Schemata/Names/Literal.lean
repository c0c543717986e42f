import Schemata.Json.Printer

/-!
# Literals in a base

A whole number is written in the base its type asks for (`format_base`): binary, octal and
hexadecimal with a mark in front, every other base in decimal. The sign stands between the mark and
the digits.
-/

namespace Schemata

/-- How the whole numbers of a base are written. -/
structure Radix where
  /-- The base of the digits. -/
  base : Nat
  /-- The mark in front of the sign. -/
  mark : String

namespace Radix

/-- The notation for a requested base. -/
def ofBase (base : Nat) : Radix :=
  if base = 2 then ⟨2, "0b"⟩
  else if base = 8 then ⟨8, "0"⟩
  else if base = 16 then ⟨16, "0x"⟩
  else ⟨10, ""⟩

/-- The digits of a magnitude, in upper case. -/
def digits (r : Radix) (n : Nat) : List Char := (Nat.toDigits r.base n).map Char.toUpper

/-- A whole number in this notation. -/
def render (r : Radix) (i : Int) : String :=
  r.mark ++ (if i < 0 then "-" else "") ++ String.ofList (r.digits i.natAbs)

end Radix

/-- A value in a base: whole numbers in the notation of the base, texts as they are, anything
else as its document text. -/
def Json.renderInBase (value : Json) (base : Nat) : String :=
  match value with
  | .number (.int i) => (Radix.ofBase base).render i
  | .string s => s
  | other => other.compact

end Schemata
