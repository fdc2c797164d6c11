import CcCvStore.Core.CInteger
import Mathlib.Algebra.Group.Nat.Defs

/-!
# Decimal numerals

Numbers written with ASCII digits, and the reader that takes as many digits as
there are.
-/

namespace CcCvStore.Decimal

def digit (value : Nat) : UInt8 := .ofNat (48 + value)

def isDigit (char : UInt8) : Bool := 48 ≤ char && char ≤ 57

def digitValue (char : UInt8) : Nat := char.toNat - 48

/-- The digits of a number, the highest first. -/
def decimal (value : Nat) : List UInt8 :=
  if value < 10 then [digit value] else decimal (value / 10) ++ [digit (value % 10)]

/-- What the digits in front of a text add to a number read so far. -/
def readDigits : Nat → List UInt8 → Nat
  | value, [] => value
  | value, char :: text =>
      if isDigit char then readDigits (value * 10 + digitValue char) text else value

theorem isDigit_digit {value : Nat} (hvalue : value < 10) : isDigit (digit value) = true := by
  have hdigits : ∀ value < 10, isDigit (digit value) = true := by decide
  exact hdigits value hvalue

theorem digitValue_digit {value : Nat} (hvalue : value < 10) :
    digitValue (digit value) = value := by
  have hdigits : ∀ value < 10, digitValue (digit value) = value := by decide
  exact hdigits value hvalue

theorem exists_digit_of_mem_decimal (value : Nat) :
    ∀ char ∈ decimal value, ∃ low, low < 10 ∧ char = digit low := by
  induction value using decimal.induct with
  | case1 value hlt =>
      rw [decimal, if_pos hlt]
      exact fun char hchar => ⟨value, hlt, List.mem_singleton.mp hchar⟩
  | case2 value hge ih =>
      rw [decimal, if_neg hge]
      intro char hchar
      rcases List.mem_append.mp hchar with hhigh | hlow
      · exact ih char hhigh
      · exact ⟨value % 10, Nat.mod_lt value (by decide), List.mem_singleton.mp hlow⟩

theorem isDigit_of_mem_decimal (value : Nat) : ∀ char ∈ decimal value, isDigit char = true := by
  intro char hchar
  obtain ⟨low, hlow, rfl⟩ := exists_digit_of_mem_decimal value char hchar
  exact isDigit_digit hlow

theorem decimal_ne_nil (value : Nat) : decimal value ≠ [] := by
  rw [decimal]
  split
  · exact List.cons_ne_nil _ _
  · exact List.append_ne_nil_of_right_ne_nil _ (List.cons_ne_nil _ _)

theorem readDigits_append {digits : List UInt8} (hdigits : ∀ char ∈ digits, isDigit char = true)
    (value : Nat) (rest : List UInt8) :
    readDigits value (digits ++ rest) = readDigits (readDigits value digits) rest := by
  induction digits generalizing value with
  | nil => rfl
  | cons char digits ih =>
      rw [List.forall_mem_cons] at hdigits
      rw [List.cons_append, readDigits, readDigits, if_pos hdigits.1, if_pos hdigits.1,
        ih hdigits.2]

/-- A written number is read back. -/
theorem readDigits_decimal (value : Nat) : readDigits 0 (decimal value) = value := by
  induction value using decimal.induct with
  | case1 value hlt =>
      rw [decimal, if_pos hlt, readDigits, if_pos (isDigit_digit hlt), digitValue_digit hlt,
        Nat.zero_mul, Nat.zero_add]
      rfl
  | case2 value hge ih =>
      have hlow : value % 10 < 10 := Nat.mod_lt value (by decide)
      rw [decimal, if_neg hge, readDigits_append (isDigit_of_mem_decimal _), ih, readDigits,
        if_pos (isDigit_digit hlow), digitValue_digit hlow, readDigits]
      exact Nat.div_add_mod' value 10

/-- A number with at most ten digits more than zero. -/
theorem length_decimal_le {value count : Nat} (hcount : 0 < count) (hvalue : value < 10 ^ count) :
    (decimal value).length ≤ count := by
  induction count generalizing value with
  | zero => contradiction
  | succ count ih =>
      rw [decimal]
      split
      · exact hcount
      next hge =>
        have hpos : 0 < count := by
          rcases Nat.eq_zero_or_pos count with rfl | hpos
          · rw [Nat.zero_add, Nat.pow_one] at hvalue
            contradiction
          · exact hpos
        have hdiv : value / 10 < 10 ^ count := by
          rw [Nat.div_lt_iff_lt_mul (by decide), ← Nat.pow_succ]
          exact hvalue
        have hlength := ih hpos hdiv
        rw [List.length_append, List.length_singleton]
        exact Nat.succ_le_succ hlength

end CcCvStore.Decimal
