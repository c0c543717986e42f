import Schemata.Names.Literal
import Schemata.Proofs.Text.Digits
import Schemata.Yaml.Literal
import Mathlib.Data.List.Induction
import Mathlib.Logic.Function.Basic

/-!
# Literals read back

A literal of a whole number is the mark of its base, a minus below zero, and a numeral of the
magnitude: digits of the base that the reader of whole numbers takes back to the magnitude, letters
in capitals, and no zero in front of other digits.

Numerals grow by one digit at the end (`IsNumeral.snoc`), and in no other way (`IsNumeral.grown`),
so they can be followed along the digits that are written for a number. Every number has one
numeral, and with it one literal in every base; and no literal spells two numbers, since no digit is
a minus.

Results:
* `Radix.isNumeral_iff`: the digits that are written for a number are its numeral.
* `IsLiteral.unique`: a literal spells one number.
* `Json.renderInBase_eq_iff`: the text of a whole number in a base is its literal, and different
  numbers have different texts.
-/

namespace Schemata

open Text (hexValue? capital)
open Yaml.Literal (inBase?)

/-! ## Reading digit by digit -/

section Reading

variable {base n d : Nat} {digits : List Char} {c : Char}

/-- Digits are read one by one, and then put together from the front. -/
theorem inBase?_eq_some : inBase? base digits = some n ↔
    digits ≠ [] ∧ ∃ values, digits.mapM hexValue? = some values ∧ (∀ v ∈ values, v < base) ∧
      values.foldl (fun n v => base * n + v) 0 = n := by
  unfold inBase?
  cases digits.mapM hexValue? with
  | none => simp
  | some values => simp [List.isEmpty_iff]

theorem inBase?_singleton :
    inBase? base [c] = some n ↔ hexValue? c = some n ∧ n < base := by
  rw [inBase?_eq_some]
  constructor
  · rintro ⟨-, values, hvalues, hsmall, rfl⟩
    obtain ⟨d, hd, rfl⟩ : ∃ d, hexValue? c = some d ∧ [d] = values := by
      simpa [Option.bind_eq_some_iff] using hvalues
    exact ⟨by simpa using hd, by simpa using hsmall⟩
  · rintro ⟨hn, hsmall⟩
    exact ⟨by simp, [n], by simp [hn], by simpa using hsmall, by simp⟩

/-- **One more digit** multiplies by the base and adds the value of the digit. -/
theorem inBase?_snoc (hne : digits ≠ []) : inBase? base (digits ++ [c]) = some n ↔
    ∃ m d, inBase? base digits = some m ∧ hexValue? c = some d ∧ d < base ∧ base * m + d = n := by
  simp only [inBase?_eq_some]
  constructor
  · rintro ⟨-, values, hvalues, hsmall, rfl⟩
    obtain ⟨front, hfront, d, hd, rfl⟩ : ∃ front, digits.mapM hexValue? = some front ∧
        ∃ d, hexValue? c = some d ∧ front ++ [d] = values := by
      simpa [List.mapM_append, Option.bind_eq_some_iff] using hvalues
    obtain ⟨hfrontSmall, hdSmall⟩ := List.forall_mem_append.mp hsmall
    exact ⟨_, d, ⟨hne, front, hfront, hfrontSmall, rfl⟩, hd, by simpa using hdSmall, by simp⟩
  · rintro ⟨_, d, ⟨-, front, hfront, hsmall, rfl⟩, hd, hdSmall, rfl⟩
    refine ⟨by simp, front ++ [d], by simp [List.mapM_append, hfront, hd], ?_, by simp⟩
    exact List.forall_mem_append.mpr ⟨hsmall, by simpa using hdSmall⟩

/-- No digit is a minus. -/
theorem inBase?_minus (base : Nat) (digits : List Char) : inBase? base ('-' :: digits) = none := by
  have hminus : hexValue? '-' = none := by decide
  simp [inBase?, hminus]

end Reading

/-! ## Numerals -/

namespace Radix

variable {base n m d : Nat} {r : Radix} {digits : List Char}

/-- The notation that a base asks for: binary, octal and hexadecimal digits behind their marks, and
decimal digits alone for every other base. -/
inductive Requested : Nat → Radix → Prop
  /-- Binary digits. -/
  | binary : Requested 2 ⟨2, "0b"⟩
  /-- Octal digits. -/
  | octal : Requested 8 ⟨8, "0"⟩
  /-- Hexadecimal digits. -/
  | hexadecimal : Requested 16 ⟨16, "0x"⟩
  /-- Decimal digits. -/
  | decimal {base : Nat} (other : base ∉ [2, 8, 16]) : Requested base ⟨10, ""⟩

theorem requested_iff : Requested base r ↔ ofBase base = r := by
  constructor
  · rintro (_ | _ | _ | hother)
    · rfl
    · rfl
    · rfl
    · simp_all [ofBase]
  · rintro rfl
    unfold ofBase
    split_ifs with h₂ h₈ h₁₆
    · exact h₂ ▸ .binary
    · exact h₈ ▸ .octal
    · exact h₁₆ ▸ .hexadecimal
    · exact .decimal (by simp [h₂, h₈, h₁₆])

theorem Requested.bounds (h : Requested base r) : 1 < r.base ∧ r.base ≤ 16 := by
  cases h <;> decide

/-- A numeral of a number: digits, at least one, that read back as the number, with letters in
capitals, and with a zero in front only if it stands alone. -/
structure IsNumeral (r : Radix) (digits : List Char) (n : Nat) : Prop where
  /-- The digits read back. -/
  reads : inBase? r.base digits = some n
  /-- Letters are capitals. -/
  capitals : ∀ c ∈ digits, c.isLower = false
  /-- A zero in front stands alone. -/
  minimal : digits.head? = some '0' → digits = ['0']

theorem IsNumeral.ne_nil (h : r.IsNumeral digits n) : digits ≠ [] :=
  (inBase?_eq_some.mp h.reads).1

/-- The digits of a number have one value. -/
theorem IsNumeral.value_unique (h : r.IsNumeral digits n) (h' : r.IsNumeral digits m) : n = m :=
  Option.some.inj (h.reads.symm.trans h'.reads)

/-- A single digit is a numeral. -/
theorem isNumeral_digit (hd : d < r.base) (hbase : r.base ≤ 16) : r.IsNumeral [capital d] d where
  reads := inBase?_singleton.mpr ⟨Text.hexValue?_capital (by omega), hd⟩
  capitals := by simpa using Text.isLower_capital (by omega)
  minimal := by simp

/-- **A numeral grows by one digit at the end** if it is not that of zero. -/
theorem IsNumeral.snoc (h : r.IsNumeral digits m) (hm : 0 < m) (hd : d < r.base)
    (hbase : r.base ≤ 16) : r.IsNumeral (digits ++ [capital d]) (r.base * m + d) where
  reads := (inBase?_snoc h.ne_nil).mpr
    ⟨m, d, h.reads, Text.hexValue?_capital (by omega), hd, rfl⟩
  capitals := List.forall_mem_append.mpr
    ⟨h.capitals, by simpa using Text.isLower_capital (by omega)⟩
  minimal hzero := by
    rw [List.head?_append_of_ne_nil _ h.ne_nil] at hzero
    have hreads := h.reads
    rw [h.minimal hzero, inBase?_singleton] at hreads
    have hvalue : 0 = m := Option.some.inj hreads.1
    omega

/-- **A numeral is one digit or has grown** by its last one. -/
theorem IsNumeral.grown (h : r.IsNumeral digits n) : (n < r.base ∧ digits = [capital n]) ∨
    ∃ front m d, r.IsNumeral front m ∧ 0 < m ∧ d < r.base ∧ digits = front ++ [capital d] ∧
      r.base * m + d = n := by
  induction digits using List.reverseRecOn generalizing n with
  | nil => exact absurd rfl h.ne_nil
  | append_singleton front c ih =>
    by_cases hfront : front = []
    · subst hfront
      obtain ⟨hvalue, hsmall⟩ := inBase?_singleton.mp h.reads
      have hc : c = capital n := Text.eq_capital hvalue (h.capitals c (by simp))
      exact Or.inl ⟨hsmall, by rw [List.nil_append, hc]⟩
    · obtain ⟨m, d, hreads, hvalue, hsmall, rfl⟩ := (inBase?_snoc hfront).mp h.reads
      have hhead : front.head? ≠ some '0' := by
        intro hzero
        have halone := h.minimal (by rw [List.head?_append_of_ne_nil _ hfront, hzero])
        simp [hfront, List.append_eq_singleton_iff] at halone
      have hnumeral : r.IsNumeral front m :=
        ⟨hreads, fun x hx => h.capitals x (by simp [hx]), fun hzero => absurd hzero hhead⟩
      -- what stands in front is a digit other than zero, or has grown itself
      have hpos : 0 < m := by
        rcases ih hnumeral with ⟨-, hdigit⟩ | ⟨_, k, e, -, hk, he, -, rfl⟩
        · refine Nat.pos_of_ne_zero ?_
          rintro rfl
          exact hhead (by rw [hdigit]; rfl)
        · exact Nat.add_pos_left (Nat.mul_pos (by omega) hk) e
      have hc : c = capital d := Text.eq_capital hvalue (h.capitals c (by simp))
      exact Or.inr ⟨front, m, d, hnumeral, hpos, hsmall, by rw [hc], rfl⟩

theorem digits_of_lt (h : n < r.base) : r.digits n = [capital n] := by
  unfold digits
  rw [Nat.toDigits_of_lt_base h]
  rfl

theorem digits_snoc (hbase : 1 < r.base) (hm : 0 < m) (hd : d < r.base) :
    r.digits (r.base * m + d) = r.digits m ++ [capital d] := by
  rw [← digits_of_lt hd]
  unfold digits
  rw [← Nat.toDigits_append_toDigits hbase hm hd, List.map_append]

/-- The digits that are written for a number are a numeral of it. -/
theorem isNumeral_digits (hlow : 1 < r.base) (hhigh : r.base ≤ 16) (n : Nat) :
    r.IsNumeral (r.digits n) n := by
  induction n using Nat.strongRecOn with
  | ind n ih =>
    by_cases hn : n < r.base
    · rw [digits_of_lt hn]
      exact isNumeral_digit hn hhigh
    · have hfront : 0 < n / r.base := Nat.div_pos (by omega) (by omega)
      have hlast : n % r.base < r.base := Nat.mod_lt n (by omega)
      have hnumeral := (ih _ (Nat.div_lt_self (by omega) hlow)).snoc hfront hlast hhigh
      rw [← digits_snoc hlow hfront hlast, Nat.div_add_mod] at hnumeral
      exact hnumeral

/-- **Every number has one numeral**, the digits that are written for it. -/
theorem isNumeral_iff (hlow : 1 < r.base) (hhigh : r.base ≤ 16) :
    r.IsNumeral digits n ↔ digits = r.digits n := by
  refine ⟨fun h => ?_, fun h => h ▸ isNumeral_digits hlow hhigh n⟩
  induction n using Nat.strongRecOn generalizing digits with
  | ind n ih =>
    rcases h.grown with ⟨hn, rfl⟩ | ⟨front, m, d, hfront, hm, hd, rfl, rfl⟩
    · exact (digits_of_lt hn).symm
    · have hlt : m < r.base * m + d :=
        Nat.lt_of_lt_of_le ((Nat.lt_mul_iff_one_lt_left hm).mpr hlow) (Nat.le_add_right _ _)
      rw [ih m hlt hfront, digits_snoc hlow hm hd]

end Radix

/-! ## Literals -/

/-- A text spells a whole number in a base: it is the mark that the base asks for, a minus if the
number is below zero, and a numeral of its magnitude. -/
def IsLiteral (base : Nat) (i : Int) (text : String) : Prop :=
  ∃ r digits, Radix.Requested base r ∧ r.IsNumeral digits i.natAbs ∧
    text = r.mark ++ (if i < 0 then "-" else "") ++ String.ofList digits

variable {base : Nat} {i j : Int} {text : String}

theorem isLiteral_iff : IsLiteral base i text ↔ (Radix.ofBase base).render i = text := by
  unfold IsLiteral Radix.render
  constructor
  · rintro ⟨r, digits, hr, hdigits, rfl⟩
    rw [Radix.requested_iff.mp hr, (Radix.isNumeral_iff hr.bounds.1 hr.bounds.2).mp hdigits]
  · rintro rfl
    have hr : Radix.Requested base (Radix.ofBase base) := Radix.requested_iff.mpr rfl
    exact ⟨_, _, hr, Radix.isNumeral_digits hr.bounds.1 hr.bounds.2 _, rfl⟩

/-- The sign can be told from the digits behind it. -/
theorem Radix.IsNumeral.head?_signed {r : Radix} {digits : List Char} {n : Nat}
    (h : r.IsNumeral digits n) (i : Int) :
    ((if i < 0 then "-" else "").toList ++ digits).head? = some '-' ↔ i < 0 := by
  by_cases hneg : i < 0
  · simp [hneg]
  · have hdigit : digits.head? ≠ some '-' := by
      intro hminus
      obtain ⟨rest, rfl⟩ := List.head?_eq_some_iff.mp hminus
      have hreads := h.reads
      rw [inBase?_minus] at hreads
      exact absurd hreads (by simp)
    simpa [hneg] using hdigit

/-- **A literal spells one number.** -/
theorem IsLiteral.unique (hi : IsLiteral base i text) (hj : IsLiteral base j text) : i = j := by
  obtain ⟨r, digits, hr, hdigits, rfl⟩ := hi
  obtain ⟨r', digits', hr', hdigits', htext⟩ := hj
  obtain rfl : r = r' := (Radix.requested_iff.mp hr).symm.trans (Radix.requested_iff.mp hr')
  rw [String.append_assoc, String.append_assoc, String.append_right_inj] at htext
  have hchars := congrArg String.toList htext
  simp only [String.toList_append, String.toList_ofList] at hchars
  have hneg : i < 0 ↔ j < 0 := by
    rw [← hdigits.head?_signed i, hchars, hdigits'.head?_signed j]
  simp only [hneg] at hchars
  obtain rfl : digits = digits' := List.append_cancel_left hchars
  have hmagnitude : i.natAbs = j.natAbs := hdigits.value_unique hdigits'
  omega

/-- **Whole numbers in a base read back.** The text of a whole number in a base is its literal: the
mark of the base, a minus below zero, and the one numeral that reads back as the magnitude. So
different whole numbers have different texts in a base. -/
theorem Json.renderInBase_eq_iff (base : Nat) :
    (∀ (i : Int) (text : String),
      (Json.number (.int i)).renderInBase base = text ↔ IsLiteral base i text) ∧
    Function.Injective fun i : Int => (Json.number (.int i)).renderInBase base := by
  have hliteral : ∀ (i : Int) (text : String),
      (Json.number (.int i)).renderInBase base = text ↔ IsLiteral base i text :=
    fun i text => isLiteral_iff.symm
  refine ⟨hliteral, fun i j h => ?_⟩
  have hi : IsLiteral base i ((Json.number (.int j)).renderInBase base) := (hliteral i _).mp h
  exact hi.unique ((hliteral j _).mp rfl)

/-- The smallest signed number of 64 bits: the sign stands behind the mark. -/
example : (Json.number (.int (-0x8000000000000000))).renderInBase 16 = "0x-8000000000000000" := by
  decide

end Schemata
