import NormalAlgorithm.Escape.Code

/-!
# Faults

Everything that can be wrong with a program or go wrong in a run. A fault names its cause; its
wording stands in one place, and its kind says which part of the work it ends.

Results:
* `decodeOrFault_eq_error_iff`: decoding has one fault, that of a dangling backslash.
-/

namespace NormalAlgorithm

/-- The causes for which a program is refused or a run is given up. Model of `Error`. -/
inductive Fault where
  /-- A second initial text. -/
  | secondInitial
  /-- Three lowercase letters and a space before a key that are no keyword. -/
  | unknownKeyword (word : Text)
  /-- A raw text that ends in a backslash which protects nothing. -/
  | danglingBackslash
  /-- More rules as written than the limit. -/
  | tooManyRules
  /-- More directives than the limit. -/
  | tooManyDirectives
  /-- A directive that would make several rules out of this one while the program is full. -/
  | tooManyClones (rule : Text)
  /-- An initial text over the limit. -/
  | initialTooLong
  /-- A step whose result is over the limit. -/
  | textTooLong
  /-- A run that has used up its steps without an end. -/
  | tooManySteps
  /-- A text that is not the number of a character. -/
  | notACharacter (numeral : Text)
  /-- A key for which no pattern can be made. -/
  | malformedPattern (reason : Text)
  deriving DecidableEq, Repr

namespace Fault

/-- Faults are told apart by what they blame. Model of `ErrorKind`. -/
inductive Kind where
  /-- The program's text is malformed. -/
  | malformed
  /-- A limit was passed. -/
  | limit
  /-- A replacement could not be written. -/
  | replacement
  deriving DecidableEq, Repr

/-- What a fault blames. Model of `kind` of an `Error`. -/
def kind : Fault → Kind
  | secondInitial | unknownKeyword _ | danglingBackslash | malformedPattern _ => .malformed
  | tooManyRules | tooManyDirectives | tooManyClones _ | initialTooLong | textTooLong
  | tooManySteps => .limit
  | notACharacter _ => .replacement

/-- The wording of a fault. Model of the messages of `Error`. -/
def message : Fault → Text
  | secondInitial => "Multiple str statements found".toList
  | unknownKeyword word =>
    "Undefined keyword ".toList ++ word ++ ", escape with backslash for literal string".toList
  | danglingBackslash => "Unexpected backslash immediately before end of text".toList
  | tooManyRules => "Too many rules".toList
  | tooManyDirectives => "Too many meta rules".toList
  | tooManyClones rule => "Too many rules created by meta rule ".toList ++ rule
  | initialTooLong => "String too long".toList
  | textTooLong => "String became too long".toList
  | tooManySteps => "Too many iterations".toList
  | notACharacter numeral => "Invalid code point ".toList ++ numeral
  | malformedPattern reason => "Invalid rule pattern: ".toList ++ reason

end Fault

/-- The text that a raw text stands for, or the fault of a dangling backslash. Model of `unescape`
    (lexer). -/
def decodeOrFault (t : Text) : Except Fault Text :=
  match decode t with
  | some u => .ok u
  | none => .error .danglingBackslash

theorem decodeOrFault_eq_ok_iff {t u : Text} : decodeOrFault t = .ok u ↔ decode t = some u := by
  rw [decodeOrFault]
  cases decode t <;> simp

theorem decodeOrFault_eq_error_iff {t : Text} {f : Fault} :
    decodeOrFault t = .error f ↔ decode t = none ∧ f = .danglingBackslash := by
  rw [decodeOrFault]
  cases decode t <;> simp [eq_comm]

end NormalAlgorithm
