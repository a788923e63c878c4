import NormalAlgorithm.CodePoints
import NormalAlgorithm.CommandLine.Arguments
import NormalAlgorithm.CommandLine.Usage
import NormalAlgorithm.Display.Trace
import NormalAlgorithm.Display.Verdict
import NormalAlgorithm.Outcome

/-!
# Answers

What the command writes and the code with which it ends, as a function of its arguments and of what
it finds around it. The code is 0 when the work was done, 1 when a fault ended it, and 2 when the
command line was refused.

Results:
* `answerSettings_refused`: without an input nothing is done.
-/

namespace NormalAlgorithm

/-- What the command writes, and its exit code. -/
structure Answer where
  code : Nat
  out : Text := []
  err : Text := []
  deriving DecidableEq, Repr

/-- An answer with something written before it. -/
def Answer.after (out err : Text) (a : Answer) : Answer :=
  { a with out := out ++ a.out, err := err ++ a.err }

/-- The answer of work that was ended by a fault. -/
def Answer.ofFault (palette : Palette) (f : Fault) : Answer :=
  { code := 1, err := f.render palette }

/-- The answer of work that came to a verdict. -/
def Answer.ofVerdict (palette : Palette) (v : Verdict) : Answer :=
  { code := 0, out := v.render palette }

/-! ## Running a program -/

/-- Runs to the end and gives the result only. The initial text is not a result. Model of
    `print_result` (report). -/
def Run.answerResult (palette : Palette) (longestResult : Nat) (r : Run) : Answer :=
  let latest := (r.pull.2.fold Latest.add {}).1
  match latest.fault with
  | some f => .ofFault palette f
  | none => .ofVerdict palette (.ofResult longestResult latest.text)

/-- A transcript, and the fault behind it. -/
structure Recording where
  transcript : Transcript
  fault : Option Fault := none
  deriving DecidableEq, Repr

/-- Records one more item. -/
def Recording.add (x : Recording) : Item → Recording
  | .ok t => { x with transcript := x.transcript.push t }
  | .error f => { x with fault := some f }

/-- The recording of a run. -/
def Run.record (window : Window) (r : Run) : Recording :=
  (r.fold Recording.add { transcript := { window } }).1

/-- Runs to the end and gives the transcript, with the verdict or the fault behind it. Model of the
    second half of `execute`. -/
def Run.answerTranscript (palette : Palette) (window : Window) (longestResult : Nat) (r : Run) :
    Answer :=
  let recording := r.record window
  let ending :=
    match recording.fault with
    | some f => Answer.ofFault palette f
    | none => Answer.ofVerdict palette (.ofResult longestResult recording.transcript.result?)
  ending.after (recording.transcript.render palette) []

/-- Compiles and runs a program. Model of `execute`. -/
def answerProgram (build : Builder) (s : Settings) (time : Timing) (t : Text) : Answer :=
  let palette := Palette.ofBool s.color
  match Program.compileWith build s.limits t with
  | .error f => .ofFault palette f
  | .ok p =>
    let answer :=
      if s.resultOnly then p.start.answerResult palette s.longestResult
      else p.start.answerTranscript palette s.window s.longestResult
    answer.after (if s.statistics then statistics palette p.counts time else []) []

/-- The trace of compiling and running a program. -/
def traceProgram (build : Builder) (s : Settings) (time : Timing) (t : Text) : Text :=
  (traceCompile build s.limits t ++
    match Program.compileWith build s.limits t with
    | .error _ => []
    | .ok p => p.start.trace).flatMap (Event.render time)

/-! ## The whole command -/

/-- What the command finds around it. -/
structure Surroundings where
  /-- What the standard input holds, if it is text. -/
  stdin : Option Text := some []
  /-- The standard input is a terminal, where nothing waits to be read. -/
  stdinIsTerminal : Bool := false
  /-- The standard output is a terminal, which shows colours unless they are switched off. -/
  stdoutIsTerminal : Bool := false
  /-- A trace is asked for. -/
  traced : Bool := false
  /-- Makes the matchers. -/
  build : Builder := .accepting

/-- What the arguments ask for. Model of `parse_args`, but for the input that is read. -/
def request (around : Surroundings) (args : List Text) : Request :=
  .read { color := around.stdoutIsTerminal } args

/-- The input that settings give or leave to be read. Model of the end of `parse_args`, and of
    `read_stdin_input`. -/
def Settings.inputFrom (s : Settings) (around : Surroundings) : Except Complaint Text :=
  match s.input with
  | some t => .ok t
  | none =>
    if around.stdinIsTerminal then .error .noInput
    else match around.stdin with
      | some t => .ok t
      | none => .error .unreadableInput

/-- The answer to a command line that is refused. -/
def Answer.ofComplaint (c : Complaint) : Answer := { code := 2, err := line (c.message usage) }

/-- The answer to settings and an input. Model of the match on the mode in `main`. -/
def answerInput (build : Builder) (s : Settings) (traced : Bool) (time : Timing) (t : Text) :
    Answer :=
  match s.conversion with
  | some .escape => { code := 0, out := line (encode t) }
  | some .decimal => { code := 0, out := line (codePoints .decimal t) }
  | some .hexadecimal => { code := 0, out := line (codePoints .hexadecimal t) }
  | none =>
    (answerProgram build s time t).after [] (if traced then traceProgram build s time t else [])

/-- The answer to settings. -/
def answerSettings (around : Surroundings) (time : Timing) (s : Settings) : Answer :=
  match s.inputFrom around with
  | .ok t => answerInput around.build s around.traced time t
  | .error c => .ofComplaint c

theorem answerSettings_refused {around : Surroundings} {s : Settings} (time : Timing)
    (hi : s.input = none) (ht : around.stdinIsTerminal = true) :
    answerSettings around time s = .ofComplaint .noInput := by
  simp [answerSettings, Settings.inputFrom, hi, ht]

/-- The answer of the command. The time is that of compiling. Model of `main`. -/
def answer (around : Surroundings) (time : Timing) (args : List Text) : Answer :=
  match request around args with
  | .help => { code := 0, out := line usage }
  | .version => { code := 0, out := line version }
  | .refused c => .ofComplaint c
  | .answer s => answerSettings around time s

end NormalAlgorithm
