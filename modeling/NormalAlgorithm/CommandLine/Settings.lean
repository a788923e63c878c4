import NormalAlgorithm.Display.Transcript
import NormalAlgorithm.Limits

/-!
# Settings

What the command line asks for. A setting is one option, with its value where it takes one; the
settings in force are those of all options together, and the last one of a kind counts. Only the
input and the conversion cannot be set twice.

Results:
* `set_quantity`: a number in force is the one that was set last.
-/

namespace NormalAlgorithm

/-! ## What can be set -/

/-- The input is not run but converted. Model of `Mode`, but for running. -/
inductive Conversion where
  /-- Escaped, for use inside a program. -/
  | escape
  /-- Its characters by their numbers in decimal. -/
  | decimal
  /-- Its characters by their numbers in hexadecimal. -/
  | hexadecimal
  deriving DecidableEq, Repr

/-- The numbers that can be set. -/
inductive Quantity where
  | rules
  | directives
  | steps
  | units
  | result
  | head
  | tail
  | budget
  deriving DecidableEq, Repr

/-- One setting. -/
inductive Setting where
  | color (on : Bool)
  | statistics
  | resultOnly
  | conversion (c : Conversion)
  | quantity (q : Quantity) (n : Nat)
  | input (t : Text)
  deriving DecidableEq, Repr

/-- All settings. Model of `CliConfig`. -/
structure Settings where
  /-- The input, unless it is still to be read. -/
  input : Option Text := none
  conversion : Option Conversion := none
  limits : Limits := .wide
  window : Window := {}
  resultOnly : Bool := false
  /-- The size of the longest result that is shown. -/
  longestResult : Nat := 1000
  statistics : Bool := false
  color : Bool := false
  deriving DecidableEq, Repr

/-! ## What is refused -/

/-- The causes for which a command line is refused. -/
inductive Complaint where
  | unknownOption (option : Text)
  | missingValue (option : Text)
  | notANumber (option value : Text)
  | secondInput
  | secondConversion
  | noInput
  | unreadableInput
  deriving DecidableEq, Repr

/-- The wording of a complaint. The usage is added where no input was given. Model of the errors of
    `parse_args`. -/
def Complaint.message (usage : Text) : Complaint → Text
  | unknownOption option => "error: unknown option '".toList ++ option ++ "'".toList
  | missingValue option => "error: ".toList ++ option ++ " expects a value".toList
  | notANumber option value =>
    "error: invalid ".toList ++ option ++ " '".toList ++ value ++
      "' (expected a non-negative integer)".toList
  | secondInput => "error: input provided multiple times".toList
  | secondConversion => "error: --escape, --ord and --hex-ord are mutually exclusive".toList
  | noInput => "error: no input provided\n\n".toList ++ usage
  | unreadableInput =>
    "error: failed to read stdin: stream did not contain valid UTF-8".toList

/-! ## Setting -/

namespace Settings

/-- The number in force. -/
def quantity (s : Settings) : Quantity → Nat
  | .rules => s.limits.rules
  | .directives => s.limits.directives
  | .steps => s.limits.steps
  | .units => s.limits.units
  | .result => s.longestResult
  | .head => s.window.head
  | .tail => s.window.tail
  | .budget => s.window.budget

/-- Sets a number. -/
def setQuantity (s : Settings) (n : Nat) : Quantity → Settings
  | .rules => { s with limits := { s.limits with rules := n } }
  | .directives => { s with limits := { s.limits with directives := n } }
  | .steps => { s with limits := { s.limits with steps := n } }
  | .units => { s with limits := { s.limits with units := n } }
  | .result => { s with longestResult := n }
  | .head => { s with window := { s.window with head := n } }
  | .tail => { s with window := { s.window with tail := n } }
  | .budget => { s with window := { s.window with budget := n } }

theorem set_quantity (s : Settings) (n : Nat) (p q : Quantity) :
    (s.setQuantity n q).quantity p = if p = q then n else s.quantity p := by
  cases p <;> cases q <;> rfl

/-- Adds a setting to those in force. Model of one option in `parse_args`, with `select_mode` for
    conversions. -/
def set (s : Settings) : Setting → Except Complaint Settings
  | .color on => .ok { s with color := on }
  | .statistics => .ok { s with statistics := true }
  | .resultOnly => .ok { s with resultOnly := true }
  | .conversion c =>
    if s.conversion.any (· != c) then .error .secondConversion
    else .ok { s with conversion := some c }
  | .quantity q n => .ok (s.setQuantity n q)
  | .input t => if s.input.isSome then .error .secondInput else .ok { s with input := some t }

end Settings

end NormalAlgorithm
