import NormalAlgorithm.Program

/-!
# Runs

A run hands out one item at a time. The first item is the initial text. Each further item is the
text after one more step: the first rule that applies anywhere in the current text rewrites its
leftmost match. A run halts when no rule applies or when a final rule was applied. It fails when
its steps are used up, when the new text would be too long, or when a replacement cannot be
written; the fault is its last item.

Results:
* `remaining_lt_of_pull`: each item leaves fewer items to come, so that every run ends.
* `fold_of_done`, `fold_of_item`: a run is folded item by item.
-/

namespace NormalAlgorithm

/-! ## One step -/

/-- The first rule that applies to a text, with its position, counted from `i`, and its result. -/
def firstApplicable : Nat → List Rule → Text → Option (Nat × Rule × Except Fault Text)
  | _, [], _ => none
  | i, r :: rs, t =>
    match r.apply t with
    | some result => some (i, r, result)
    | none => firstApplicable (i + 1) rs t

/-- What becomes of a text in one step. -/
inductive Step where
  /-- No rule applies. -/
  | stuck
  /-- The rule at this position gives this text, and ends the run if it is final. -/
  | rewritten (position : Nat) (text : Text) (isFinal : Bool)
  /-- The rule that applies cannot give a text. -/
  | failed (f : Fault)
  deriving DecidableEq, Repr

/-- One step of a program. Model of the loop over the rules in `step` of a `Run`. -/
def Program.step (p : Program) (t : Text) : Step :=
  match firstApplicable 0 p.rules t with
  | none => .stuck
  | some (_, _, .error f) => .failed f
  | some (i, r, .ok new) =>
    if p.limits.units < units new then .failed .textTooLong else .rewritten i new r.isFinal

/-! ## Runs -/

/-- Why a run has ended without a fault. Model of `Halt`. -/
inductive Halt where
  /-- No rule applies. -/
  | noRuleApplies
  /-- A final rule was applied. -/
  | finalRule
  deriving DecidableEq, Repr

/-- How far a run has come. Model of `State`. -/
inductive Phase where
  /-- Nothing was handed out yet. -/
  | fresh
  /-- There may be further items. -/
  | running
  /-- The run has ended without a fault. -/
  | halted (h : Halt)
  /-- The run has ended with a fault. -/
  | failed
  deriving DecidableEq, Repr

/-- A run of a program. Model of `Run`. -/
structure Run where
  program : Program
  /-- The text that was handed out last; before that, the initial text. -/
  current : Text
  /-- The steps taken. -/
  steps : Nat
  /-- The position of the rule that was applied last. -/
  lastRule : Option Nat
  phase : Phase
  deriving DecidableEq, Repr

/-- A run hands out texts, and perhaps a fault at the end. -/
abbrev Item := Except Fault Text

/-- The run of a program, before its first item. Model of `new` of a `Run`. -/
def Program.start (p : Program) : Run :=
  { program := p, current := p.initial, steps := 0, lastRule := none, phase := .fresh }

namespace Run

/-- The run has ended, for good. Model of `is_finished`. -/
def isFinished (r : Run) : Bool :=
  match r.phase with
  | .halted _ | .failed => true
  | .fresh | .running => false

/-- How the run has ended, if it has ended without a fault. Model of `halt`. -/
def halt? (r : Run) : Option Halt :=
  match r.phase with
  | .halted h => some h
  | .fresh | .running | .failed => none

/-- The run after a fault: nothing but the phase has changed. -/
def fail (r : Run) : Run := { r with phase := .failed }

/-- The next item of a run that has handed out its initial text. Model of `step` of a `Run`, and of
    what `next` makes of it. -/
def advance (r : Run) : Option Item × Run :=
  if r.program.limits.steps ≤ r.steps then (some (.error .tooManySteps), r.fail)
  else match r.program.step r.current with
    | .stuck => (none, { r with phase := .halted .noRuleApplies })
    | .failed f => (some (.error f), r.fail)
    | .rewritten i t isFinal =>
      (some (.ok t),
        { r with
          current := t
          steps := r.steps + 1
          lastRule := some i
          phase := if isFinal then .halted .finalRule else .running })

/-- The next item of a run, if there is one, and the run behind it. Model of `next`. -/
def pull (r : Run) : Option Item × Run :=
  match r.phase with
  | .fresh => (some (.ok r.current), { r with phase := .running })
  | .running => r.advance
  | .halted _ | .failed => (none, r)

/-! ## Whole runs -/

/-- A bound on the number of items to come. -/
def remaining (r : Run) : Nat :=
  match r.phase with
  | .fresh => r.program.limits.steps - r.steps + 2
  | .running => r.program.limits.steps - r.steps + 1
  | .halted _ | .failed => 0

theorem remaining_lt_of_pull {r r' : Run} {item : Item} (h : r.pull = (some item, r')) :
    r'.remaining < r.remaining := by
  unfold pull at h
  split at h
  · rename_i hp
    cases h
    simp [remaining, hp]
  · rename_i hp
    unfold advance at h
    split at h
    · cases h; simp [remaining, fail, hp]
    · split at h
      · simp at h
      · cases h; simp [remaining, fail, hp]
      · rename_i i t isFinal _
        cases h
        cases isFinal <;> simp [remaining, hp]
        omega
  · simp at h
  · simp at h

/-- Folds the items to come, from the next to the last. -/
def fold {β : Type} (f : β → Item → β) (b : β) (r : Run) : β × Run :=
  match h : r.pull with
  | (none, r') => (b, r')
  | (some item, r') =>
    have := remaining_lt_of_pull h
    fold f (f b item) r'
termination_by r.remaining

theorem fold_of_done {β : Type} (f : β → Item → β) (b : β) {r r' : Run}
    (h : r.pull = (none, r')) : r.fold f b = (b, r') := by
  rw [fold]
  split <;> simp_all

theorem fold_of_item {β : Type} (f : β → Item → β) (b : β) {r r' : Run} {item : Item}
    (h : r.pull = (some item, r')) : r.fold f b = r'.fold f (f b item) := by
  rw [fold]
  split <;> simp_all

/-- The items to come, and the run behind them. -/
def items (r : Run) : List Item × Run :=
  let (items, r') := r.fold (fun items item => item :: items) []
  (items.reverse, r')

end Run

end NormalAlgorithm
