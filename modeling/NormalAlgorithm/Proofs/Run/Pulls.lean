import NormalAlgorithm.Proofs.Run.Account

/-!
# Pulling a run

A run can be pulled any number of times, also after it has ended. Each pull does one of six
things, and which one it is depends on the phase, on the steps that are left and on what the
program does with the current text.

Results:
* `pulled`, `pulled_of_pull`: all that a pull can do.
* `finished_of_pull_none`, `pull_eq_error`: a pull that gives nothing, or a fault, ends the run.
* `pulls_add`: pulls, and then more pulls.
* `pulls_induction`: what holds before the first pull, and after every pull before which it held,
  holds after any number of pulls.
* `pulls_program`: the program of a run is always the same.
* `pulls_of_finished`: a run that has ended gives nothing more and does not change.
* `account_of_pulls`: a run, pulled some times and then to its end.
-/

namespace NormalAlgorithm

namespace Run

/-! ## One pull -/

/-- All that a pull can do: the answer that it gives, and the run behind it. -/
inductive Pulled (r : Run) : Option Item → Run → Prop
  /-- The initial text is handed out. -/
  | initial (fresh : r.phase = .fresh) :
      Pulled r (some (.ok r.current)) { r with phase := .running }
  /-- There are no steps left. -/
  | usedUp (running : r.phase = .running) (noneLeft : r.program.limits.steps ≤ r.steps) :
      Pulled r (some (.error .tooManySteps)) r.fail
  /-- No rule applies. -/
  | stuck (running : r.phase = .running) (left : r.steps < r.program.limits.steps)
      (step : r.program.step r.current = .stuck) :
      Pulled r none { r with phase := .halted .noRuleApplies }
  /-- The rule that applies cannot give a text. -/
  | failed {f : Fault} (running : r.phase = .running) (left : r.steps < r.program.limits.steps)
      (step : r.program.step r.current = .failed f) : Pulled r (some (.error f)) r.fail
  /-- A rule is applied. -/
  | rewritten {i : Nat} {t : Text} {isFinal : Bool} (running : r.phase = .running)
      (left : r.steps < r.program.limits.steps)
      (step : r.program.step r.current = .rewritten i t isFinal) :
      Pulled r (some (.ok t))
        { r with
          current := t
          steps := r.steps + 1
          lastRule := some i
          phase := if isFinal then .halted .finalRule else .running }
  /-- The run has ended. -/
  | ended (finished : r.isFinished = true) : Pulled r none r

theorem pulled (r : Run) : Pulled r r.pull.1 r.pull.2 := by
  cases hphase : r.phase with
  | fresh =>
    rw [pull_of_fresh hphase]
    exact .initial hphase
  | running =>
    by_cases hleft : r.steps < r.program.limits.steps
    · rw [pull_of_step hphase hleft]
      cases hstep : r.program.step r.current with
      | stuck => exact .stuck hphase hleft hstep
      | failed f => exact .failed hphase hleft hstep
      | rewritten i t isFinal => exact .rewritten hphase hleft hstep
    · rw [pull_of_usedUp hphase (Nat.le_of_not_lt hleft)]
      exact .usedUp hphase (Nat.le_of_not_lt hleft)
  | halted h =>
    have hfinished : r.isFinished = true := by simp [isFinished, hphase]
    rw [pull_of_finished hfinished]
    exact .ended hfinished
  | failed =>
    have hfinished : r.isFinished = true := by simp [isFinished, hphase]
    rw [pull_of_finished hfinished]
    exact .ended hfinished

theorem pulled_of_pull {r r' : Run} {answer : Option Item} (h : r.pull = (answer, r')) :
    Pulled r answer r' := by
  have hpulled := pulled r
  rw [h] at hpulled
  exact hpulled

theorem Pulled.program_eq {r r' : Run} {answer : Option Item} (h : Pulled r answer r') :
    r'.program = r.program := by
  cases h <;> rfl

theorem finished_of_pull_none {r r' : Run} (h : r.pull = (none, r')) : r'.isFinished = true := by
  cases pulled_of_pull h with
  | stuck running left step => rfl
  | ended finished => exact finished

theorem pull_eq_error {r r' : Run} {f : Fault} (h : r.pull = (some (.error f), r')) :
    r.phase = .running ∧ r' = r.fail := by
  cases pulled_of_pull h with
  | usedUp running noneLeft => exact ⟨running, rfl⟩
  | failed running left step => exact ⟨running, rfl⟩

/-! ## Any number of pulls -/

/-- The answers to the first `n` pulls, from first to last, and the run behind them. -/
def pulls (r : Run) : Nat → List (Option Item) × Run
  | 0 => ([], r)
  | n + 1 =>
    let (answers, r') := r.pulls n
    let (answer, r'') := r'.pull
    (answers ++ [answer], r'')

theorem pulls_succ (r : Run) (n : Nat) :
    r.pulls (n + 1) = ((r.pulls n).1 ++ [(r.pulls n).2.pull.1], (r.pulls n).2.pull.2) := rfl

theorem pulls_add (r : Run) (m n : Nat) :
    r.pulls (m + n) =
      ((r.pulls m).1 ++ ((r.pulls m).2.pulls n).1, ((r.pulls m).2.pulls n).2) := by
  induction n with
  | zero => simp [pulls]
  | succ n ih => rw [← Nat.add_assoc, pulls_succ, ih, pulls_succ, List.append_assoc]

theorem pulls_induction {r : Run} {motive : List (Option Item) → Run → Prop}
    (start : motive [] r)
    (pull : ∀ answers r' answer r'', motive answers r' → Pulled r' answer r'' →
      motive (answers ++ [answer]) r'')
    (n : Nat) : motive (r.pulls n).1 (r.pulls n).2 := by
  induction n with
  | zero => exact start
  | succ n ih =>
    rw [pulls_succ]
    exact pull _ _ _ _ ih (pulled (r.pulls n).2)

/-- A run never changes its program. -/
theorem pulls_program (r : Run) (n : Nat) : (r.pulls n).2.program = r.program :=
  pulls_induction (motive := fun _ r' => r'.program = r.program) rfl
    (fun _ _ _ _ hsame hpulled => hpulled.program_eq.trans hsame) n

theorem pulls_of_finished {r : Run} (h : r.isFinished = true) (n : Nat) :
    r.pulls n = (List.replicate n none, r) := by
  induction n with
  | zero => rfl
  | succ n ih => rw [pulls_succ, ih, pull_of_finished h, List.replicate_succ']

/-- The items handed out first stand in front of all that the run gives behind them. -/
theorem account_of_pulls {r r' : Run} {n : Nat} {items : List Item}
    (h : r.pulls n = (items.map some, r')) :
    r.account = ⟨items ++ r'.account.items, r'.account.halt?⟩ := by
  induction n generalizing items r' with
  | zero =>
    obtain ⟨hitems, rfl⟩ := Prod.mk.inj h
    rw [List.map_eq_nil_iff.mp hitems.symm, List.nil_append]
  | succ n ih =>
    rw [pulls_succ] at h
    obtain ⟨hitems, rfl⟩ := Prod.mk.inj h
    obtain ⟨before, last, rfl, hbefore, hlast⟩ := List.map_eq_append_iff.mp hitems.symm
    obtain ⟨i, rfl, hi⟩ := List.map_eq_singleton_iff.mp hlast
    have hpull : (r.pulls n).2.pull = (some i, (r.pulls n).2.pull.2) := Prod.ext hi.symm rfl
    rw [ih (Prod.ext hbefore.symm rfl), account_of_item hpull, List.append_assoc]
    rfl

end Run

end NormalAlgorithm
