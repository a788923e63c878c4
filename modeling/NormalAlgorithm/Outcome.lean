import NormalAlgorithm.Run

/-!
# Outcomes

What a whole run comes to: the last text that it handed out, the number of steps, and the fault
that ended it, if there was one.

Results:
* `evaluateWith_of_fault`: a program that cannot be compiled has an outcome without a text.
* `evaluateWith_of_compiled`: the outcome of any other program is that of its run.
-/

namespace NormalAlgorithm

/-- What a run comes to. Model of `Outcome`. -/
structure Outcome where
  /-- The last text. There is none only if the program could not be compiled. -/
  last : Option Text
  steps : Nat
  fault : Option Fault
  deriving DecidableEq, Repr

namespace Outcome

/-- Whether the run has ended without a fault. Model of `is_ok`. -/
def isOk (o : Outcome) : Bool := o.fault.isNone

end Outcome

/-- The last text and the last fault among items. -/
structure Latest where
  text : Option Text := none
  fault : Option Fault := none
  deriving DecidableEq, Repr

/-- Takes note of one more item. -/
def Latest.add (l : Latest) : Item → Latest
  | .ok t => { l with text := some t }
  | .error f => { l with fault := some f }

/-- The outcome of a run. -/
def Run.outcome (r : Run) : Outcome :=
  let (latest, r') := r.fold Latest.add {}
  { last := latest.text, steps := r'.steps, fault := latest.fault }

/-- Compiles and runs a program to its end. Model of `evaluate`. -/
def evaluateWith (build : Builder) (limits : Limits) (t : Text) : Outcome :=
  match Program.compileWith build limits t with
  | .ok p => p.start.outcome
  | .error f => { last := none, steps := 0, fault := some f }

/-- Compiles and runs a program to its end, where every matcher can be made. -/
def evaluate (limits : Limits) (t : Text) : Outcome := evaluateWith .accepting limits t

section

variable {build : Builder} {limits : Limits} {t : Text}

theorem evaluateWith_of_fault {f : Fault} (h : Program.compileWith build limits t = .error f) :
    evaluateWith build limits t = ⟨none, 0, some f⟩ := by
  rw [evaluateWith, h]

theorem evaluateWith_of_compiled {p : Program} (h : Program.compileWith build limits t = .ok p) :
    evaluateWith build limits t = p.start.outcome := by
  rw [evaluateWith, h]

end

end NormalAlgorithm
