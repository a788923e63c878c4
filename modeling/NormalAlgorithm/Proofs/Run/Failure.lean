import NormalAlgorithm.Proofs.Program.Refused
import NormalAlgorithm.Proofs.Run.Pulls
import NormalAlgorithm.Proofs.Run.Step

/-!
# Failing runs

A run fails in the middle of a step, when rules were tried and texts were made, but nothing of this
is seen: the run stays at the text, the step and the rule at which it was, and only the fault shows
that it was pulled. From then on it gives nothing.

Results:
* `endsRun_of_pull`: the faults that end runs.
* `failed_of_error_mem`: a run that has handed out a fault has failed for good.
* `failsCleanly_of_pull`: what a failing pull does, and what it does not.
-/

namespace NormalAlgorithm

namespace Run

/-! ## The fault -/

theorem endsRun_of_step {p : Program} {t : Text} {f : Fault} (h : p.step t = .failed f) :
    f.endsRun = true := by
  obtain ⟨i, r, m, -, hrefused | ⟨new, -, -, rfl⟩⟩ := Program.step_eq_failed_iff.mp h
  · obtain ⟨group, rfl⟩ := Rule.replacement_eq_error hrefused
    rfl
  · rfl

theorem endsRun_of_pull {r r' : Run} {f : Fault} (h : r.pull = (some (.error f), r')) :
    f.endsRun = true := by
  cases pulled_of_pull h with
  | usedUp running noneLeft => rfl
  | failed running left step => exact endsRun_of_step step

/-- A run that has handed out a fault has failed, and does not leave this phase. -/
theorem failed_of_error_mem {r : Run} {f : Fault} (n : Nat) :
    some (.error f) ∈ (r.pulls n).1 → (r.pulls n).2.phase = .failed := by
  refine pulls_induction (r := r)
    (motive := fun answers r' => some (.error f) ∈ answers → r'.phase = .failed) (by simp) ?_ n
  intro answers r' answer r'' ih hpulled hmem
  rcases List.mem_append.mp hmem with hbefore | hlast
  · have hfailed := ih hbefore
    cases hpulled with
    | initial fresh => simp [hfailed] at fresh
    | usedUp running noneLeft => rfl
    | stuck running left step => simp [hfailed] at running
    | failed running left step => rfl
    | rewritten running left step => simp [hfailed] at running
    | ended finished => exact hfailed
  · obtain rfl := List.mem_singleton.mp hlast
    cases hpulled with
    | usedUp running noneLeft => rfl
    | failed running left step => rfl

/-! ## The state -/

/-- What a pull that gives a fault does to a run that has given these answers. -/
structure FailsCleanly (answers : List (Option Item)) (r r' : Run) (f : Fault) : Prop where
  /-- The steps are used up, or a text would be too long, or a replacement cannot be written. -/
  endsRun : f.endsRun = true
  /-- The run stays at the text, the step and the rule at which it was. -/
  current_eq : r'.current = r.current
  steps_eq : r'.steps = r.steps
  lastRule_eq : r'.lastRule = r.lastRule
  /-- The run has ended, without having halted. -/
  halt?_eq_none : r'.halt? = none
  finished : r'.isFinished = true
  /-- No fault was given before this one. -/
  first : ∀ g, some (.error g) ∉ answers
  /-- Nothing is given behind this fault, and the run does not change any more. -/
  pulls_eq : ∀ n, r'.pulls n = (List.replicate n none, r')

end Run

/-- **Failure is clean.** A pull that gives a fault, however often the run was pulled before,
    changes nothing in the run but that it has ended, and the fault is the last item. The faults
    that end runs and those that refuse programs are different ones, also when matchers cannot be
    made. -/
theorem failsCleanly_of_pull (build : Builder) (limits : Limits) (source : Text) :
    (∀ (p : Program) (n : Nat) (f : Fault) (r' : Run),
      (p.start.pulls n).2.pull = (some (.error f), r') →
        Run.FailsCleanly (p.start.pulls n).1 (p.start.pulls n).2 r' f) ∧
      (∀ f, Program.compileWith build limits source = .error f → f.endsRun = false) ∧
      ∀ f, Program.compile limits source = .error f → f.endsRun = false := by
  refine ⟨?_, fun f => Program.compileWith_eq_error, ?_⟩
  · intro p n f r' h
    have hfault := Run.endsRun_of_pull h
    obtain ⟨running, rfl⟩ := Run.pull_eq_error h
    refine ⟨hfault, rfl, rfl, rfl, rfl, rfl, ?_, Run.pulls_of_finished rfl⟩
    intro g hg
    have hfailed := Run.failed_of_error_mem n hg
    rw [running] at hfailed
    cases hfailed
  · intro f h
    rw [← Program.compileWith_accepting] at h
    exact Program.compileWith_eq_error h

/-- A number that is no character's, found by the second rule behind a text that the first has made,
    and a program whose only matcher cannot be made. -/
theorem failsCleanly_of_pull_number :
    (∃ p, Program.compile {} "str a1114112;a=b;chr b%=%".toList = .ok p ∧
      ∃ r', (p.start.pulls 2).2.pull =
          (some (.error (.notACharacter "1114112".toList)), r') ∧ r'.steps = 1 ∧
        Run.FailsCleanly (p.start.pulls 2).1 (p.start.pulls 2).2 r'
          (.notACharacter "1114112".toList)) ∧
      Program.compileWith (fun _ => some "too large".toList) {} "a=b".toList =
        .error (.malformedPattern "too large".toList) ∧
      (Fault.malformedPattern "too large".toList).endsRun = false := by
  have hcompile : Program.compile {} "str a1114112;a=b;chr b%=%".toList =
      .ok ⟨"a1114112".toList, [⟨.plain, ⟨"a".toList, []⟩, ⟨"b".toList, []⟩⟩,
        ⟨.character, ⟨"b".toList, [[]]⟩, ⟨[], [[]]⟩⟩], {}, ⟨3, 2, 0, 2⟩⟩ := rfl
  have hrefused : Program.compileWith (fun _ => some "too large".toList) {} "a=b".toList =
      .error (.malformedPattern "too large".toList) := rfl
  obtain ⟨hpull, hbuild, -⟩ :=
    failsCleanly_of_pull (fun _ => some "too large".toList) {} "a=b".toList
  refine ⟨⟨_, hcompile, _, rfl, rfl, ?_⟩, hrefused, hbuild _ hrefused⟩
  exact hpull _ 2 (.notACharacter "1114112".toList) _ rfl

end NormalAlgorithm
