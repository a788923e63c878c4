import NormalAlgorithm.Display.Palette
import NormalAlgorithm.Fault
import NormalAlgorithm.Text.Blank

/-!
# Verdicts

What is said of a run: the text that it came to, or why that text is not shown, or the fault that
ended it.

Results:
* `ofResult_eq_text_iff`: which results are shown.
-/

namespace NormalAlgorithm

/-- What is said of the result of a run. Model of `ResultReport` (report). -/
inductive Verdict where
  /-- No step was taken. -/
  | noOperation
  /-- The result holds nothing but white space. -/
  | empty
  /-- The result is too long to be shown. -/
  | tooLong
  /-- The result is shown. -/
  | text (t : Text)
  deriving DecidableEq, Repr

namespace Verdict

/-- The verdict on a result, if a step was taken. Results up to the limit are shown. Model of
    `classify`. -/
def ofResult (limit : Nat) : Option Text → Verdict
  | none => .noOperation
  | some t => if isBlankText t then .empty else if limit < units t then .tooLong else .text t

theorem ofResult_eq_text_iff {limit : Nat} {result : Option Text} {t : Text} :
    ofResult limit result = .text t ↔
      result = some t ∧ isBlankText t = false ∧ units t ≤ limit := by
  cases result with
  | none => simp [ofResult]
  | some u =>
    rw [ofResult]
    split
    · simp; rintro rfl; simp_all
    · split
      · simp; rintro rfl; omega
      · simp; rintro rfl; simp_all

/-- The line that gives a verdict. Model of `print_report`. -/
def render (palette : Palette) : Verdict → Text
  | noOperation => line (palette.paint .yellow "No rule was applied.".toList)
  | empty => line (palette.paint .yellow "The result is empty.".toList)
  | tooLong => line (palette.paint .yellow "The result is too long to print.".toList)
  | text t => line t

end Verdict

/-- The words in front of a fault. -/
def Fault.Kind.label : Fault.Kind → Text
  | malformed => "syntax error:".toList
  | limit => "limit exceeded:".toList
  | replacement => "substitution error:".toList

/-- The line that gives a fault. Model of `print_error` (report). -/
def Fault.render (palette : Palette) (f : Fault) : Text :=
  line (palette.paint .bold (palette.paint .red f.kind.label) ++ [' '] ++ f.message)

end NormalAlgorithm
