import NormalAlgorithm.Text.Basic
import NormalAlgorithm.Text.Ranges

/-!
# Blank characters

The characters with the Unicode property White_Space. A text that holds nothing else shows nothing.

Results:
* `isBlank_of_isWhitespace`: the four characters of the ASCII function are blank.
-/

namespace NormalAlgorithm

/-- The ranges of the property White_Space. -/
def blankRanges : Ranges :=
  [(0x09, 0x0D), (0x20, 0x20), (0x85, 0x85), (0xA0, 0xA0), (0x1680, 0x1680), (0x2000, 0x200A),
    (0x2028, 0x2029), (0x202F, 0x202F), (0x205F, 0x205F), (0x3000, 0x3000)]

example : countRanges blankRanges = 25 := by decide

/-- Whether a character is white space. -/
def isBlank (c : Char) : Bool := inRanges blankRanges c.toNat

theorem isBlank_of_isWhitespace {c : Char} (h : c.isWhitespace = true) : isBlank c = true := by
  simp only [Char.isWhitespace, Bool.or_eq_true, decide_eq_true_eq] at h
  rcases h with ((rfl | rfl) | rfl) | rfl <;> decide

/-- Whether a text holds white space only. -/
def isBlankText (t : Text) : Bool := t.all isBlank

end NormalAlgorithm
