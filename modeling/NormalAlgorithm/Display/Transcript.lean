import NormalAlgorithm.Display.Palette
import NormalAlgorithm.Text.Numeral

/-!
# Transcripts

A transcript keeps the beginning and the end of a run for display and counts what lies between. The
head is filled first. It is closed when it holds as many texts as the window allows, or when the
texts are larger than the budget. Behind it slides the tail: while there are more texts in it than
the window allows, or the texts kept are larger than the budget, the oldest of the tail is dropped.
The newest text is never dropped.

Results:
* `total_push`: every text is counted, whether it is kept or not.
* `Window.shed_getLast?`: the newest text of a tail is never dropped.
-/

namespace NormalAlgorithm

/-! ## Windows -/

/-- How much of a run is kept. Model of `TranscriptLimits` (report). -/
structure Window where
  /-- Texts kept from the beginning. -/
  head : Nat := 50
  /-- Texts kept from the end. -/
  tail : Nat := 50
  /-- The size that the texts kept may have together, in 16-bit units. -/
  budget : Nat := 100000
  deriving DecidableEq, Repr

/-- Drops texts from the front of a tail until it fits the window. The size is that of all texts
    kept. Model of the loop in `push` of a `Transcript`. -/
def Window.shed (w : Window) (size : Nat) : List Text → List Text × Nat
  | t :: u :: rest =>
    if w.budget < size || w.tail < rest.length + 2 then w.shed (size - units t) (u :: rest)
    else (t :: u :: rest, size)
  | tail => (tail, size)

theorem Window.shed_length_le (w : Window) (size : Nat) (tail : List Text) :
    (w.shed size tail).1.length ≤ tail.length := by
  fun_induction Window.shed w size tail with
  | case1 size t u rest _ ih => exact Nat.le_succ_of_le ih
  | case2 => exact Nat.le_refl _
  | case3 => exact Nat.le_refl _

theorem Window.shed_getLast? (w : Window) (size : Nat) (tail : List Text) :
    (w.shed size tail).1.getLast? = tail.getLast? := by
  fun_induction Window.shed w size tail with
  | case1 size t u rest _ ih => rw [ih, List.getLast?_cons_cons]
  | case2 => rfl
  | case3 => rfl

/-! ## Transcripts -/

/-- The texts kept of a run, and the number of those dropped. Model of `Transcript` (report). -/
structure Transcript where
  window : Window
  head : List Text := []
  tail : List Text := []
  /-- The number of texts dropped between head and tail. -/
  elided : Nat := 0
  /-- The size of the texts kept. -/
  size : Nat := 0
  /-- No more text goes into the head. -/
  closed : Bool := false
  deriving DecidableEq, Repr

namespace Transcript

/-- Adds the next text of a run. Model of `push`. -/
def push (x : Transcript) (t : Text) : Transcript :=
  let size := x.size + units t
  if x.closed then
    let (tail, kept) := x.window.shed size (x.tail ++ [t])
    { x with tail, size := kept, elided := x.elided + (x.tail.length + 1 - tail.length) }
  else
    let head := x.head ++ [t]
    { x with head, size, closed := x.window.budget < size || x.window.head ≤ head.length }

/-- The number of texts, kept or not. Model of `total`. -/
def total (x : Transcript) : Nat := x.head.length + x.elided + x.tail.length

/-- The newest text. Model of `last`. -/
def last? (x : Transcript) : Option Text := x.tail.getLast?.or x.head.getLast?

/-- The result of the run: its last text, if it is not the initial one. Model of `result`. -/
def result? (x : Transcript) : Option Text := if 1 < x.total then x.last? else none

theorem total_push (x : Transcript) (t : Text) : (x.push t).total = x.total + 1 := by
  unfold push
  split
  · have h := x.window.shed_length_le (x.size + units t) (x.tail ++ [t])
    simp only [List.length_append, List.length_singleton] at h
    simp only [total]
    omega
  · simp only [total, List.length_append, List.length_singleton]
    omega

/-! ## Display -/

/-- A line of a transcript. -/
inductive Entry where
  /-- The text that was pushed at this place, counted from one. -/
  | text (number : Nat) (t : Text)
  /-- The number of texts that are not shown. -/
  | gap (count : Nat)
  deriving DecidableEq, Repr

/-- Texts with their numbers, the first of which is given. -/
def numbered : Nat → List Text → List Entry
  | _, [] => []
  | n, t :: ts => .text n t :: numbered (n + 1) ts

/-- What a transcript shows. -/
def entries (x : Transcript) : List Entry :=
  numbered 1 x.head ++ (if 0 < x.elided then [.gap x.elided] else []) ++
    numbered (x.head.length + x.elided + 1) x.tail

/-- A line of a transcript, with numbers of the given width. Model of `print_snapshot`, and of the
    line of elided snapshots (report). -/
def Entry.render (palette : Palette) (width : Nat) : Entry → Text
  | .text number t =>
    line (palette.paint .gray ((decimal number).leftpad width ' ' ++ ['.']) ++ [' '] ++
      palette.paint .green t)
  | .gap count =>
    line (palette.paint .dim (List.replicate width ' ' ++ "  … ".toList ++ decimal count ++
      " snapshots elided …".toList))

/-- The lines of a transcript. Model of `print_transcript` (report). -/
def render (palette : Palette) (x : Transcript) : Text :=
  x.entries.flatMap (Entry.render palette (decimal x.total).length)

end Transcript

end NormalAlgorithm
