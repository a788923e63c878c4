import NormalAlgorithm.Proofs.Run.Pulls

/-!
# Runs in lockstep

Two runs of the same rules that are at the same text, one of which has more room: its texts may be
longer, and it may take more steps. They give the same items until the first meets a limit that the
second has not met. With the same room, they give the same items to the end.

Results:
* `pull_of_ahead`: one pull of both.
* `account_of_ahead`: both, pulled to their end.
* `account_of_alike`: with the same room, both give the same to the end.
-/

namespace NormalAlgorithm

/-! ## One step -/

/-- With the same rules and longer texts allowed, only a text that is too long makes a
    difference. -/
theorem Program.step_of_longer {p p' : Program} {extraUnits : Nat} (hrules : p'.rules = p.rules)
    (hunits : p'.limits.units = p.limits.units + extraUnits) (t : Text) :
    p'.step t = p.step t ∨ p.step t = .failed .textTooLong ∧ 0 < extraUnits := by
  unfold step
  rw [hrules]
  rcases firstApplicable 0 p.rules t with _ | ⟨i, r, f | new⟩
  · exact .inl rfl
  · exact .inl rfl
  · dsimp only
    by_cases hlong : p.limits.units < units new
    · rw [if_pos hlong]
      by_cases hextra : 0 < extraUnits
      · exact .inr ⟨rfl, hextra⟩
      · have hsame : p'.limits.units = p.limits.units := by omega
        rw [hsame, if_pos hlong]
        exact .inl rfl
    · have hshort : ¬ p'.limits.units < units new := by omega
      rw [if_neg hlong, if_neg hshort]
      exact .inl rfl

namespace Run

/-- The steps that the limit leaves to a run. -/
def stepsLeft (r : Run) : Nat := r.program.limits.steps - r.steps

/-- The second run is where the first is, and its room is larger by these amounts. -/
structure Ahead (extraUnits extraSteps : Nat) (r r' : Run) : Prop where
  rules_eq : r'.program.rules = r.program.rules
  units_eq : r'.program.limits.units = r.program.limits.units + extraUnits
  left_eq : r'.stepsLeft = r.stepsLeft + extraSteps
  current_eq : r'.current = r.current
  phase_eq : r'.phase = r.phase

/-- The fault of a limit that is wider by one of these amounts. -/
def Widened (extraUnits extraSteps : Nat) (f : Fault) : Prop :=
  f = .textTooLong ∧ 0 < extraUnits ∨ f = .tooManySteps ∧ 0 < extraSteps

section

variable {extraUnits extraSteps : Nat} {r r' : Run}

theorem Ahead.halt?_eq (h : Ahead extraUnits extraSteps r r') : r'.halt? = r.halt? := by
  unfold halt?
  rw [h.phase_eq]

theorem Ahead.isFinished_eq (h : Ahead extraUnits extraSteps r r') :
    r'.isFinished = r.isFinished := by
  unfold isFinished
  rw [h.phase_eq]

theorem Ahead.fail (h : Ahead extraUnits extraSteps r r') :
    Ahead extraUnits extraSteps r.fail r'.fail :=
  { h with phase_eq := rfl }

/-- While the first run has steps left, so has the second, and only a text that is too long makes a
    difference. -/
theorem pull_of_ahead_step (h : Ahead extraUnits extraSteps r r') (running : r.phase = .running)
    (left : r.steps < r.program.limits.steps) :
    (r'.pull.1 = r.pull.1 ∧ Ahead extraUnits extraSteps r.pull.2 r'.pull.2) ∨
      r.pull = (some (.error .textTooLong), r.fail) ∧ 0 < extraUnits := by
  have hleft := h.left_eq
  unfold stepsLeft at hleft
  have left' : r'.steps < r'.program.limits.steps := by omega
  have hpull := pull_of_step running left
  have hpull' := pull_of_step (h.phase_eq.trans running) left'
  rw [h.current_eq] at hpull'
  rcases Program.step_of_longer h.rules_eq h.units_eq r.current with hsame | ⟨htooLong, hextra⟩
  · rw [hsame] at hpull'
    rw [hpull, hpull']
    left
    cases r.program.step r.current with
    | stuck => exact ⟨rfl, { h with current_eq := rfl, phase_eq := rfl }⟩
    | failed f => exact ⟨rfl, h.fail⟩
    | rewritten i t isFinal =>
      have hnext : r'.program.limits.steps - (r'.steps + 1) =
          r.program.limits.steps - (r.steps + 1) + extraSteps := by
        omega
      exact ⟨rfl, { h with left_eq := hnext, current_eq := rfl, phase_eq := rfl }⟩
  · rw [hpull, htooLong]
    exact .inr ⟨rfl, hextra⟩

/-- When the first run has used up its steps, so has the second, or it may take more. -/
theorem pull_of_ahead_usedUp (h : Ahead extraUnits extraSteps r r') (running : r.phase = .running)
    (noneLeft : r.program.limits.steps ≤ r.steps) :
    (r'.pull.1 = r.pull.1 ∧ Ahead extraUnits extraSteps r.pull.2 r'.pull.2) ∨
      r.pull = (some (.error .tooManySteps), r.fail) ∧ 0 < extraSteps := by
  have hpull := pull_of_usedUp running noneLeft
  by_cases hextra : 0 < extraSteps
  · exact .inr ⟨hpull, hextra⟩
  · have hleft := h.left_eq
    unfold stepsLeft at hleft
    have noneLeft' : r'.program.limits.steps ≤ r'.steps := by omega
    rw [hpull, pull_of_usedUp (h.phase_eq.trans running) noneLeft']
    exact .inl ⟨rfl, h.fail⟩

/-- Both runs give the same item and stay in lockstep, unless the first meets a limit that is wider
    for the second. -/
theorem pull_of_ahead (h : Ahead extraUnits extraSteps r r') :
    (r'.pull.1 = r.pull.1 ∧ Ahead extraUnits extraSteps r.pull.2 r'.pull.2) ∨
      ∃ f, r.pull = (some (.error f), r.fail) ∧ Widened extraUnits extraSteps f := by
  by_cases hfinished : r.isFinished = true
  · rw [pull_of_finished hfinished, pull_of_finished (h.isFinished_eq.trans hfinished)]
    exact .inl ⟨rfl, h⟩
  cases hphase : r.phase with
  | fresh =>
    rw [pull_of_fresh hphase, pull_of_fresh (h.phase_eq.trans hphase), h.current_eq]
    exact .inl ⟨rfl, { h with current_eq := rfl, phase_eq := rfl }⟩
  | running =>
    by_cases left : r.steps < r.program.limits.steps
    · rcases pull_of_ahead_step h hphase left with hsame | ⟨hpull, hextra⟩
      · exact .inl hsame
      · exact .inr ⟨_, hpull, .inl ⟨rfl, hextra⟩⟩
    · rcases pull_of_ahead_usedUp h hphase (Nat.le_of_not_lt left) with hsame | ⟨hpull, hextra⟩
      · exact .inl hsame
      · exact .inr ⟨_, hpull, .inr ⟨rfl, hextra⟩⟩
  | halted why => simp [isFinished, hphase] at hfinished
  | failed => simp [isFinished, hphase] at hfinished

/-! ## Whole runs -/

/-- Both runs give the same account, unless the first ends with the fault of a limit that is wider
    for the second, and then the second gives at least what the first gave before. -/
theorem account_of_ahead (h : Ahead extraUnits extraSteps r r') :
    r'.account = r.account ∨
      ∃ before f, r.account = ⟨before ++ [.error f], none⟩ ∧ Widened extraUnits extraSteps f ∧
        before <+: r'.account.items := by
  induction r using pull_induction generalizing r' with
  | done r r₁ hpull =>
    rcases pull_of_ahead h with ⟨hsame, hbehind⟩ | ⟨f, hfault, -⟩
    · rw [hpull] at hsame hbehind
      have hpull' : r'.pull = (none, r'.pull.2) := Prod.ext hsame rfl
      rw [account_of_done hpull, account_of_done hpull', hbehind.halt?_eq]
      exact .inl rfl
    · rw [hpull] at hfault
      cases hfault
  | item r i r₁ hpull ih =>
    rcases pull_of_ahead h with ⟨hsame, hbehind⟩ | ⟨f, hfault, hwidened⟩
    · rw [hpull] at hsame hbehind
      have hpull' : r'.pull = (some i, r'.pull.2) := Prod.ext hsame rfl
      rw [account_of_item hpull, account_of_item hpull']
      rcases ih hbehind with heq | ⟨before, f, heq, hwidened, hbefore⟩
      · rw [heq]
        exact .inl rfl
      · rw [heq]
        exact .inr ⟨i :: before, f, rfl, hwidened, (List.prefix_cons_inj i).mpr hbefore⟩
    · rw [hfault] at hpull
      cases hpull
      rw [account_of_item hfault, account_of_done (pull_of_finished (r := r.fail) rfl)]
      exact .inr ⟨[], f, rfl, hwidened, List.nil_prefix⟩

/-- With the same room, both runs give the same account. -/
theorem account_of_alike (h : Ahead 0 0 r r') : r'.account = r.account := by
  rcases account_of_ahead h with heq | ⟨-, f, -, ⟨-, hextra⟩ | ⟨-, hextra⟩, -⟩
  · exact heq
  · cases hextra
  · cases hextra

end

end Run

end NormalAlgorithm
