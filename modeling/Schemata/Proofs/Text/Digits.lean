import Schemata.Text.Hex
import Mathlib.Data.List.Basic

/-!
# Digits

Decimal digits determine their number, and a number ends where its digits do. The sixteen digits of
hexadecimal, in capitals, are determined by their values.

Results:
* `Text.toDigits_inj`, `Text.toDigits_append_inj`: decimal numbers are told apart by their digits.
* `Text.hexValue?_capital`, `Text.eq_capital`: capital digits and values below sixteen are one for
  one.
-/

namespace Schemata

namespace Text

variable {c : Char} {d i j : Nat}

/-! ## Decimal digits -/

theorem toDigits_inj (h : Nat.toDigits 10 i = Nat.toDigits 10 j) : i = j := by
  have hvalue := congrArg (fun digits => Nat.ofDigitChars 10 digits 0) h
  simpa using hvalue

/-- A number with a blank behind it tells where it ends. -/
theorem toDigits_append_inj {rest rest' : List Char}
    (h : Nat.toDigits 10 i ++ ' ' :: rest = Nat.toDigits 10 j ++ ' ' :: rest') :
    i = j ∧ rest = rest' := by
  have hdigits : ∀ (n : Nat) (tail : List Char),
      (Nat.toDigits 10 n ++ ' ' :: tail).takeWhile Char.isDigit = Nat.toDigits 10 n := by
    intro n tail
    have hall : ∀ c ∈ Nat.toDigits 10 n, c.isDigit = true :=
      fun c hc => Nat.isDigit_of_mem_toDigits (by decide) (by decide) hc
    rw [List.takeWhile_append_of_pos hall]
    simp
  have hfront := congrArg (List.takeWhile Char.isDigit) h
  rw [hdigits, hdigits] at hfront
  rw [hfront] at h
  exact ⟨toDigits_inj hfront, (List.cons.inj (List.append_cancel_left h)).2⟩

/-! ## Capital digits -/

/-- The digit of a value, in capitals. -/
def capital (d : Nat) : Char := (Nat.digitChar d).toUpper

theorem hexValue?_capital (h : d < 16) : hexValue? (capital d) = some d := by
  have hall : ∀ d < 16, hexValue? (capital d) = some d := by decide
  exact hall d h

theorem isLower_capital (h : d < 16) : (capital d).isLower = false := by
  have hall : ∀ d < 16, (capital d).isLower = false := by decide
  exact hall d h

/-- Digits are found among the first 128 characters. -/
theorem toNat_lt_of_hexValue? (h : hexValue? c = some d) : c.toNat < 128 := by
  unfold hexValue? at h
  split at h
  · rename_i hdigit
    exact Nat.lt_of_le_of_lt (Char.isDigit_iff_toNat.mp hdigit).2 (by decide)
  · split at h
    · rename_i hsmall
      exact Nat.lt_of_le_of_lt hsmall.2 (by decide)
    · split at h
      · rename_i hcapital
        exact Nat.lt_of_le_of_lt hcapital.2 (by decide)
      · exact absurd h (by simp)

/-- **A digit that is no small letter** is the capital digit of its value. -/
theorem eq_capital (h : hexValue? c = some d) (hc : c.isLower = false) : c = capital d := by
  have hall : ∀ code < 128, (Char.ofNat code).isLower = false →
      (hexValue? (Char.ofNat code)).all (fun d => Char.ofNat code = capital d) = true := by
    decide
  have hself := hall c.toNat (toNat_lt_of_hexValue? h) (by rwa [Char.ofNat_toNat])
  rw [Char.ofNat_toNat, h] at hself
  simpa using hself

end Text

end Schemata
