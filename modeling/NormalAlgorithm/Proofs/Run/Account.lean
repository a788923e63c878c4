import NormalAlgorithm.Run

/-!
# The account of a run

All that a run hands out until it hands out nothing, and how it has halted by then. The account of
a run is put together pull by pull: the item that comes next, and the account of the run behind it.

Results:
* `pull_induction`: what holds of a run that hands out nothing, and of a run whenever it holds of
  the run behind its next item, holds of every run.
* `account_of_item`, `account_of_done`: the account, pull by pull.
* `pull_of_step`: the next item of a running run, by the step of its program.
-/

namespace NormalAlgorithm

/-- What a run hands out, and how it halts, unless it fails. -/
structure Account where
  items : List Item
  halt? : Option Halt

namespace Run

/-- The items of a run up to the first pull that gives none, and how the run has halted then. -/
def account (r : Run) : Account := ⟨r.items.1, r.items.2.halt?⟩

theorem pull_induction {motive : Run → Prop}
    (done : ∀ r r', r.pull = (none, r') → motive r)
    (item : ∀ r i r', r.pull = (some i, r') → motive r' → motive r) (r : Run) : motive r := by
  induction h : r.remaining using Nat.strongRecOn generalizing r with
  | ind n ih =>
    rcases hpull : r.pull with ⟨_ | i, r'⟩
    · exact done r r' hpull
    · exact item r i r' hpull (ih r'.remaining (h ▸ remaining_lt_of_pull hpull) r' rfl)

/-! ## Pull by pull -/

/-- Items are collected in front of those that were collected before. -/
theorem fold_cons (r : Run) (collected : List Item) :
    r.fold (fun items item => item :: items) collected =
      ((r.fold (fun items item => item :: items) []).1 ++ collected,
        (r.fold (fun items item => item :: items) []).2) := by
  induction r using pull_induction generalizing collected with
  | done r r' h => simp only [fold_of_done _ _ h, List.nil_append]
  | item r i r' h ih =>
    rw [fold_of_item _ _ h, fold_of_item _ _ h, ih (i :: collected), ih [i]]
    simp only [List.append_assoc, List.singleton_append]

theorem items_of_done {r r' : Run} (h : r.pull = (none, r')) : r.items = ([], r') := by
  simp only [items, fold_of_done _ _ h, List.reverse_nil]

theorem items_of_item {r r' : Run} {i : Item} (h : r.pull = (some i, r')) :
    r.items = (i :: r'.items.1, r'.items.2) := by
  simp only [items, fold_of_item _ _ h, fold_cons r' [i], List.reverse_append,
    List.reverse_singleton, List.singleton_append]

theorem account_of_done {r r' : Run} (h : r.pull = (none, r')) : r.account = ⟨[], r'.halt?⟩ := by
  rw [account, items_of_done h]

theorem account_of_item {r r' : Run} {i : Item} (h : r.pull = (some i, r')) :
    r.account = ⟨i :: r'.account.items, r'.account.halt?⟩ := by
  simp only [account, items_of_item h]

/-! ## What comes next -/

theorem pull_of_fresh {r : Run} (h : r.phase = .fresh) :
    r.pull = (some (.ok r.current), { r with phase := .running }) := by
  rw [pull, h]

theorem pull_of_finished {r : Run} (h : r.isFinished = true) : r.pull = (none, r) := by
  unfold isFinished at h
  unfold pull
  split at h
  · simp_all
  · simp_all
  · cases h
  · cases h

theorem pull_of_usedUp {r : Run} (h : r.phase = .running)
    (hsteps : r.program.limits.steps ≤ r.steps) :
    r.pull = (some (.error .tooManySteps), r.fail) := by
  simp only [pull, h, advance, if_pos hsteps]

/-- While there are steps left, what comes next depends on the step of the program only. -/
theorem pull_of_step {r : Run} (h : r.phase = .running)
    (hsteps : r.steps < r.program.limits.steps) :
    r.pull = match r.program.step r.current with
      | .stuck => (none, { r with phase := .halted .noRuleApplies })
      | .failed f => (some (.error f), r.fail)
      | .rewritten i t isFinal =>
        (some (.ok t),
          { r with
            current := t
            steps := r.steps + 1
            lastRule := some i
            phase := if isFinal then .halted .finalRule else .running }) := by
  have hleft : ¬ r.program.limits.steps ≤ r.steps := Nat.not_le_of_lt hsteps
  cases hstep : r.program.step r.current <;> simp only [pull, h, advance, if_neg hleft, hstep]

end Run

end NormalAlgorithm
