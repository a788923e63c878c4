import NormalAlgorithm.Text.Numeral

/-!
# Code points

The numbers of the characters of a text, in decimal or hexadecimal, with a space between each two.
-/

namespace NormalAlgorithm

/-- How numbers are written. Model of `CodepointFormat`. -/
inductive Base where
  | decimal
  | hexadecimal
  deriving DecidableEq, Repr

/-- The numeral of a number in a base. -/
def Base.numeral : Base → Nat → Text
  | .decimal, n => NormalAlgorithm.decimal n
  | .hexadecimal, n => NormalAlgorithm.hexadecimal n

/-- The numbers of the characters of a text. Model of `codepoints`. -/
def codePoints (base : Base) (t : Text) : Text :=
  [' '].intercalate (t.map fun c => base.numeral c.toNat)

end NormalAlgorithm
