import NormalAlgorithm.Display.Duration
import NormalAlgorithm.Display.Palette
import NormalAlgorithm.Program

/-!
# Statistics

What compiling a program has counted, and how long its parts took.
-/

namespace NormalAlgorithm

/-- How long the parts of compiling took, in nanoseconds. Model of the times in `CompileMetrics`. -/
structure Timing where
  /-- Reading the source. -/
  reading : Nat := 0
  /-- Applying the directives. -/
  expanding : Nat := 0
  /-- Decoding the rules. -/
  decoding : Nat := 0
  deriving DecidableEq, Repr

/-- How long compiling took. Model of `total`. -/
def Timing.total (time : Timing) : Nat := time.reading + time.expanding + time.decoding

/-- The gap between two figures on a line. -/
def figureGap : Text := "  │  ".toList

/-- The lines that give the statistics. Model of `print_stats` (report). -/
def statistics (palette : Palette) (counts : Counts) (time : Timing) : Text :=
  let figure (n : Nat) := palette.paint .cyan (decimal n)
  let lasting (n : Nat) := palette.paint .dim (duration n)
  line (palette.paint .gray "━━━ Compilation ━━━".toList) ++
    line ("  Statements: ".toList ++ figure counts.statements ++ figureGap ++
      "Rules: ".toList ++ figure counts.written ++ " → ".toList ++ figure counts.expanded ++
      figureGap ++ "Meta rules: ".toList ++ figure counts.directives) ++
    line ("  Total: ".toList ++ palette.paint .green (duration time.total) ++ figureGap ++
      "Parse: ".toList ++ lasting time.reading ++ figureGap ++
      "Expand: ".toList ++ lasting time.expanding ++ figureGap ++
      "Compile: ".toList ++ lasting time.decoding) ++
    line (palette.paint .gray "━━━━━━━━━━━━━━━━━━━".toList)

end NormalAlgorithm
