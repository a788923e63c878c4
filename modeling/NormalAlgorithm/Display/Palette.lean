import NormalAlgorithm.Text.Basic

/-!
# Palettes

Parts of the output are set in a style. On a terminal a style is switched on by a control sequence
and off by another; in plain output styles leave no mark.

Results:
* `paint_plain`: plain output is the text itself.
-/

namespace NormalAlgorithm

/-- The styles of the output. Model of the codes in `ansi` (report). -/
inductive Style where
  | bold
  | dim
  | red
  | green
  | yellow
  | cyan
  | gray
  deriving DecidableEq, Repr

/-- The number of a style in its control sequence. -/
def Style.number : Style → Text
  | bold => "1".toList
  | dim => "2".toList
  | red => "31".toList
  | green => "32".toList
  | yellow => "33".toList
  | cyan => "36".toList
  | gray => "90".toList

/-- The control sequence with this number. -/
def controlSequence (number : Text) : Text := ['\x1b', '['] ++ number ++ ['m']

/-- Whether styles are shown. Model of `Palette` (report). -/
inductive Palette where
  | plain
  | color
  deriving DecidableEq, Repr

/-- The palette with or without colour. -/
def Palette.ofBool (color : Bool) : Palette := if color then .color else .plain

/-- Sets a text in a style. Model of `paint`. -/
def Palette.paint : Palette → Style → Text → Text
  | .plain, _, t => t
  | .color, style, t => controlSequence style.number ++ t ++ controlSequence ['0']

@[simp] theorem paint_plain (style : Style) (t : Text) : Palette.plain.paint style t = t := rfl

/-- A line of output. -/
def line (t : Text) : Text := t ++ ['\n']

end NormalAlgorithm
