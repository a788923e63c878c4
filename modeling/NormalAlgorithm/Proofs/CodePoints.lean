import NormalAlgorithm.CodePoints
import Mathlib.Data.List.Basic
import Mathlib.Tactic.IntervalCases

/-!
# Numbers of characters, read back

A text can be written as the numbers of its characters, and nothing is lost by it. Each numeral is
read back as its number, digit by digit; a space is no digit, so the list is cut at its spaces into
the numerals it was made of. Only the empty list needs a rule of its own: cut at its spaces, the
empty text is one piece, and this piece is no numeral.

Results:
* `Base.digit?_digitChar`: the digits of a base have the values for which they are written.
* `Base.mem_digits_of_mem_numeral`: a numeral is made of digits.
* `Base.read?_numeral`: a number is read back from its numeral.
* `splitOn_codePoints`, `codePoints_eq_nil_iff`: the numerals are found again, and only the empty
  text is written as the empty text.
* `codePoints_lossless`: the numbers are read back, and they determine the text.
-/

namespace NormalAlgorithm

/-! ## Numerals -/

namespace Base

/-- The number of digits of a base. -/
def size : Base → Nat
  | decimal => 10
  | hexadecimal => 16

/-- The digits of a base, in the order of their values. -/
def digits (base : Base) : Text := "0123456789abcdef".toList.take base.size

/-- The value of a digit. -/
def digit? (base : Base) (c : Char) : Option Nat := base.digits.idxOf? c

/-- The number that a numeral stands for, if it is one: a text of digits that is not empty. -/
def read? (base : Base) (t : Text) : Option Nat :=
  if t.isEmpty then none
  else t.foldlM (fun n c => (base.digit? c).map (base.size * n + ·)) 0

section

variable {base : Base} {n d : Nat} {c : Char}

theorem one_lt_size (base : Base) : 1 < base.size := by
  cases base <;> decide

theorem digit?_digitChar (h : d < base.size) : base.digit? (Nat.digitChar d) = some d := by
  cases base <;> simp only [size] at h <;> interval_cases d <;> rfl

theorem digitChar_mem_digits (h : d < base.size) : Nat.digitChar d ∈ base.digits := by
  rw [← List.isSome_idxOf?, ← digit?, digit?_digitChar h, Option.isSome_some]

theorem numeral_eq (base : Base) (n : Nat) : base.numeral n = Nat.toDigits base.size n := by
  cases base <;> rfl

theorem numeral_of_lt (h : d < base.size) : base.numeral d = [Nat.digitChar d] := by
  rw [numeral_eq, Nat.toDigits_of_lt_base h]

/-- A longer numeral is that of the quotient with the digit for the remainder behind it. -/
theorem numeral_of_le (h : base.size ≤ n) :
    base.numeral n = base.numeral (n / base.size) ++ [Nat.digitChar (n % base.size)] := by
  rw [numeral_eq, numeral_eq, Nat.toDigits_eq_if base.one_lt_size, if_neg (Nat.not_lt.mpr h)]

theorem mod_size_lt (base : Base) (n : Nat) : n % base.size < base.size :=
  Nat.mod_lt n (Nat.zero_lt_of_lt base.one_lt_size)

/-- Induction on the length of a numeral. -/
theorem numeral_induction (base : Base) {motive : Nat → Prop}
    (digit : ∀ d < base.size, motive d)
    (longer : ∀ n, base.size ≤ n → motive (n / base.size) → motive n) (n : Nat) : motive n := by
  induction n using Nat.strongRecOn with
  | ind n ih =>
    by_cases h : n < base.size
    · exact digit n h
    · have hsize := base.one_lt_size
      exact longer n (Nat.not_lt.mp h) (ih _ (Nat.div_lt_self (by omega) hsize))

theorem mem_digits_of_mem_numeral (h : c ∈ base.numeral n) : c ∈ base.digits := by
  induction n using base.numeral_induction with
  | digit d hd =>
    rw [numeral_of_lt hd, List.mem_singleton] at h
    rw [h]
    exact digitChar_mem_digits hd
  | longer n hn ih =>
    rw [numeral_of_le hn, List.mem_append, List.mem_singleton] at h
    rcases h with hfront | rfl
    · exact ih hfront
    · exact digitChar_mem_digits (base.mod_size_lt n)

theorem numeral_ne_nil (base : Base) (n : Nat) : base.numeral n ≠ [] := by
  rw [numeral_eq]
  exact Nat.toDigits_ne_nil

/-- A number is read back from its numeral. -/
theorem read?_numeral (base : Base) (n : Nat) : base.read? (base.numeral n) = some n := by
  rw [read?, if_neg (by simpa using base.numeral_ne_nil n)]
  induction n using base.numeral_induction with
  | digit d hd =>
    rw [numeral_of_lt hd]
    simp [digit?_digitChar hd]
  | longer n hn ih =>
    rw [numeral_of_le hn, List.foldlM_append, ih]
    simp [digit?_digitChar (base.mod_size_lt n), Nat.div_add_mod]

end

end Base

/-! ## Lists of numerals -/

/-- The numbers for which there are numerals with a space between each two. There are none in the
    empty text. -/
def readCodePoints? (base : Base) (t : Text) : Option (List Nat) :=
  if t.isEmpty then some [] else (t.splitOn ' ').mapM base.read?

section

variable {base : Base} {t : Text}

theorem codePoints_eq_nil_iff : codePoints base t = [] ↔ t = [] := by
  constructor
  · intro h
    cases t with
    | nil => rfl
    | cons c t =>
      have hne := base.numeral_ne_nil c.toNat
      cases t <;> simp_all [codePoints]
  · rintro rfl
    rfl

/-- A space is no digit, so the list is cut into its numerals. -/
theorem splitOn_codePoints (h : t ≠ []) :
    (codePoints base t).splitOn ' ' = t.map fun c => base.numeral c.toNat := by
  refine List.splitOn_intercalate ' ' ?_ (by simpa using h)
  intro numeral hnumeral hspace
  obtain ⟨c, -, rfl⟩ := List.mem_map.mp hnumeral
  have hdigit := Base.mem_digits_of_mem_numeral hspace
  cases base <;> revert hdigit <;> decide

theorem readCodePoints?_codePoints (base : Base) (t : Text) :
    readCodePoints? base (codePoints base t) = some (t.map Char.toNat) := by
  by_cases h : t = []
  · rw [h]
    rfl
  · have hne : (codePoints base t).isEmpty = false := by
      rw [List.isEmpty_eq_false_iff]
      exact mt codePoints_eq_nil_iff.mp h
    have hread : (base.read? ∘ fun c : Char => base.numeral c.toNat) = fun c => pure c.toNat :=
      funext fun c => base.read?_numeral c.toNat
    rw [readCodePoints?, hne, if_neg Bool.false_ne_true, splitOn_codePoints h, List.mapM_map, hread,
      List.mapM_pure]
    rfl

end

/-- **Nothing is lost.** In decimal and in hexadecimal, what is written for a text is cut at its
    spaces into numerals, and these are read back as the numbers of the characters of the text, in
    order. Nothing at all is written for the empty text only, and different texts are not written
    alike. -/
theorem codePoints_lossless (base : Base) :
    (∀ t, readCodePoints? base (codePoints base t) = some (t.map Char.toNat)) ∧
    (∀ t, codePoints base t = [] ↔ t = []) ∧
    Function.Injective (codePoints base) := by
  refine ⟨readCodePoints?_codePoints base, fun t => codePoints_eq_nil_iff, fun t u h => ?_⟩
  have hnumbers : t.map Char.toNat = u.map Char.toNat := by
    rw [← Option.some_inj, ← readCodePoints?_codePoints, h, readCodePoints?_codePoints]
  exact Function.Injective.list_map (fun _ _ => Char.toNat_inj.mp) hnumbers

/-- One number for each character, also beyond the first plane. -/
example : codePoints .hexadecimal "A😀".toList = "41 1f600".toList := by decide +kernel

end NormalAlgorithm
