import NormalAlgorithm.Proofs.Run.Drained

/-!
# Evaluating a program, or pulling its run by hand

Evaluating a program hides its run and keeps three things of it: the last text, the number of steps
and the fault. Whoever pulls the run by hand, until a pull gives nothing, comes to the same three
twice: by the answers to the pulls, and by what the run has stored behind them. How often the run is
pulled afterwards does not matter.

Results:
* `Run.exists_none_mem_pulls`: whoever pulls often enough gets nothing in the end.
* `Run.pulls_of_none`: once a pull has given nothing, the answers are all items of the run, and then
  nothing.
* `Run.halt?_ne_none_iff`: a run that has ended has halted exactly if it has not failed.
* `Run.reports_outcome`: the outcome of a run reports every way of pulling it to its end.
* `evaluate_by_hand`: the same for programs, and what there is without a run.
-/

namespace NormalAlgorithm

/-! ## Faults handed out -/

/-- The fault that an answer hands out, if it hands out one. -/
def refused? : Option Item → Option Fault
  | some (.error f) => some f
  | some (.ok _) | none => none

/-- The faults that answers hand out, from first to last. -/
def faults (answers : List (Option Item)) : List Fault := answers.filterMap refused?

theorem mem_faults_iff {answers : List (Option Item)} {f : Fault} :
    f ∈ faults answers ↔ some (.error f) ∈ answers := by
  rw [faults, List.mem_filterMap]
  constructor
  · rintro ⟨answer, hmem, hf⟩
    unfold refused? at hf
    split at hf <;> cases hf
    exact hmem
  · intro hmem
    exact ⟨some (.error f), hmem, rfl⟩

/-- What an outcome has to say of the answers to pulls, and of the run behind them. -/
structure Outcome.Reports (o : Outcome) (answers : List (Option Item)) (r : Run) : Prop where
  /-- The last text is the current text of the run, whether the run has failed or not. -/
  last_eq : o.last = some r.current
  /-- It is the text that was handed out last. -/
  last_eq_getLast? : o.last = (snapshots answers).getLast?
  /-- The steps are those that the run has counted. -/
  steps_eq : o.steps = r.steps
  /-- There is one text for each step, and the initial one. -/
  length_snapshots : (snapshots answers).length = o.steps + 1
  /-- No fault was handed out but the one of the outcome. -/
  faults_eq : faults answers = o.fault.toList
  /-- The outcome is good exactly if the run has halted. -/
  isOk_iff : o.isOk = true ↔ r.halt? ≠ none

namespace Run

theorem faults_itemsOf (texts : List Text) (fault? : Option Fault) (n : Nat) :
    faults ((itemsOf texts fault?).map some ++ List.replicate n none) = fault?.toList := by
  induction texts with
  | nil => cases fault? <;> simp [itemsOf, faults, refused?, List.filterMap_replicate]
  | cons t texts ih =>
    rw [itemsOf_cons, List.map_cons, List.cons_append]
    exact ih

/-! ## Pulling until nothing comes -/

section

variable {r : Run} {n : Nat}

theorem exists_none_mem_pulls (r : Run) : ∃ n, none ∈ (r.pulls n).1 := by
  refine ⟨r.items.1.length + 1, ?_⟩
  rw [(r.pulls_items 1).1]
  simp

/-- As long as there are items left, no pull gives nothing. -/
theorem length_lt_of_none_mem (h : none ∈ (r.pulls n).1) : r.items.1.length < n := by
  by_contra hle
  obtain ⟨m, hm⟩ := Nat.exists_eq_add_of_le (Nat.le_of_not_lt hle)
  have hitems : (r.pulls (n + m)).1 = r.items.1.map some := by
    have hall := (r.pulls_items 0).1
    rw [Nat.add_zero, hm] at hall
    simpa using hall
  have hmem : none ∈ (r.pulls (n + m)).1 := by
    rw [pulls_add]
    exact List.mem_append_left _ h
  rw [hitems] at hmem
  simp at hmem

theorem pulls_of_none (h : none ∈ (r.pulls n).1) :
    ∃ m, r.pulls n = (r.items.1.map some ++ List.replicate (m + 1) none, r.items.2) := by
  obtain ⟨m, hm⟩ := Nat.exists_eq_add_of_lt (length_lt_of_none_mem h)
  have hn : n = r.items.1.length + (m + 1) := by omega
  rw [hn]
  exact ⟨m, Prod.ext (r.pulls_items (m + 1)).1 (r.pulls_items m).2⟩

theorem halt?_ne_none_iff (h : r.isFinished = true) : r.halt? ≠ none ↔ r.phase ≠ .failed := by
  unfold isFinished at h
  unfold halt?
  split at h <;> simp_all

/-! ## The outcome -/

/-- What an outcome reports is settled by the first pull that gives nothing. -/
theorem reports_outcome {p : Program} (hsize : units p.initial ≤ p.limits.units)
    (hnone : none ∈ (p.start.pulls n).1) :
    p.start.outcome.Reports (p.start.pulls n).1 (p.start.pulls n).2 := by
  obtain ⟨texts, fault?, hitems⟩ := p.start.items_eq
  obtain ⟨m, hpulls⟩ := pulls_of_none hnone
  obtain ⟨earlier, applied, hhistory⟩ := history_pulls hsize n
  rw [hpulls, hitems] at hhistory ⊢
  dsimp only at hhistory ⊢
  have htexts := snapshots_itemsOf texts fault? (m + 1)
  have hfaults := faults_itemsOf texts fault? (m + 1)
  have hends : texts = earlier ++ [p.start.items.2.current] := by
    rw [← htexts]
    exact hhistory.snapshots_of_finished (isFinished_items p.start)
  have hlast : texts.getLast? = some p.start.items.2.current := by simp [hends]
  have hlength : texts.length = p.start.items.2.steps + 1 := by
    rw [hends, List.length_append, List.length_singleton, hhistory.derivation.length_eq,
      hhistory.steps_eq]
  have hfailed : fault? = none ↔ p.start.items.2.phase ≠ .failed := by
    rw [ne_eq, hhistory.failed_iff, ← not_iff_not]
    simp only [← mem_faults_iff, hfaults]
    cases fault? <;> simp
  rw [outcome_of_items hitems]
  refine ⟨hlast, by rw [htexts], rfl, by rw [htexts, hlength], hfaults, ?_⟩
  rw [halt?_ne_none_iff (isFinished_items p.start), ← hfailed]
  exact Option.isNone_iff_eq_none

end

end Run

/-- **Evaluating a program is pulling its run by hand.** If the program cannot be compiled, for what
    is written in it or for a matcher that cannot be made, there is no text and no step, and the
    fault is that of compiling. Otherwise some pull of its run gives nothing, and whoever has pulled
    until then, or further, finds what evaluating reports: the last text is the current text of the
    run and the last one handed out, also if the run has failed; the steps are those that the run
    has counted, one fewer than the texts handed out; the fault is the only fault handed out, if
    there is one; and all is well exactly if the run has halted. -/
theorem evaluate_by_hand (build : Builder) (limits : Limits) (source : Text) :
    match Program.compileWith build limits source with
    | .error f => evaluateWith build limits source = ⟨none, 0, some f⟩
    | .ok p =>
      (∃ n, none ∈ (p.start.pulls n).1) ∧
        ∀ n, none ∈ (p.start.pulls n).1 →
          (evaluateWith build limits source).Reports (p.start.pulls n).1 (p.start.pulls n).2 := by
  cases hcompile : Program.compileWith build limits source with
  | error f => exact evaluateWith_of_fault hcompile
  | ok p =>
    refine ⟨Run.exists_none_mem_pulls p.start, ?_⟩
    intro n hnone
    rw [evaluateWith_of_compiled hcompile]
    exact Run.reports_outcome (Program.units_initial_le hcompile) hnone

/-- With three steps allowed the run fails, and the text that it came to is still there. -/
example : evaluate { steps := 3 } "a=aa;str a".toList =
    ⟨some "aaaa".toList, 3, some .tooManySteps⟩ := by
  decide +kernel

/-- A matcher that is too large is as good as any other fault of compiling. -/
example : evaluateWith (fun _ => some "too large".toList) {} "str a;a=b".toList =
    ⟨none, 0, some (.malformedPattern "too large".toList)⟩ := rfl

end NormalAlgorithm
