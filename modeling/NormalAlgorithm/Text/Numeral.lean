import NormalAlgorithm.Text.Basic

/-!
# Numerals

Numbers are written in decimal or in lowercase hexadecimal, without leading zeros, and read from
runs of the ten digits.

Results:
* `length_decimal_le`: a smaller number has no longer a numeral.
* `readDecimal?_decimal`: a number is read back from its decimal numeral.
* `readDecimal?_isSome_iff`: exactly the non-empty runs of digits can be read.
-/

namespace NormalAlgorithm

/-! ## Writing -/

/-- The decimal numeral of a number. -/
def decimal (n : Nat) : Text := Nat.toDigits 10 n

/-- The lowercase hexadecimal numeral of a number. -/
def hexadecimal (n : Nat) : Text := Nat.toDigits 16 n

theorem length_decimal_le {m n : Nat} (h : m ≤ n) : (decimal m).length ≤ (decimal n).length := by
  have hn : n < 10 ^ (decimal n).length :=
    (Nat.length_toDigits_le_iff (by decide) Nat.length_toDigits_pos).mp (Nat.le_refl _)
  exact (Nat.length_toDigits_le_iff (by decide) Nat.length_toDigits_pos).mpr
    (Nat.lt_of_le_of_lt h hn)

/-! ## Reading -/

/-- The number that a non-empty run of digits stands for. Leading zeros are allowed. -/
def readDecimal? (t : Text) : Option Nat :=
  if !t.isEmpty && t.all Char.isDigit then some (Nat.ofDigitChars 10 t 0) else none

theorem readDecimal?_decimal (n : Nat) : readDecimal? (decimal n) = some n := by
  have hne : (Nat.toDigits 10 n).isEmpty = false := by simp
  have hd : (Nat.toDigits 10 n).all Char.isDigit = true :=
    List.all_eq_true.mpr fun c hc => Nat.isDigit_of_mem_toDigits (by decide) (by decide) hc
  simp [readDecimal?, decimal, hne, hd, Nat.ofDigitChars_ten_toDigits]

theorem readDecimal?_isSome_iff {t : Text} :
    (readDecimal? t).isSome = true ↔ t ≠ [] ∧ ∀ c ∈ t, c.isDigit = true := by
  rw [readDecimal?, ← Option.isSome_some (a := Nat.ofDigitChars 10 t 0)]
  split <;> simp_all

end NormalAlgorithm
