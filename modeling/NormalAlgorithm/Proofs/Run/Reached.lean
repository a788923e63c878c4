import NormalAlgorithm.Proofs.Run.Pulls
import NormalAlgorithm.Proofs.Run.Step

/-!
# What a run has reached

A run stores its current text, a counter, the position of one rule and its phase. What they say
about the items handed out so far, and about the rules that led from each text to the next, holds
of every run of a compiled program, however often it was pulled.

Results:
* `history_pulled`, `history_pulls`: one pull keeps the history of a run, and so does any number
  of pulls.
* `reached_of_pulls`: what the stored state of a run says about the items handed out so far.
-/

namespace NormalAlgorithm

/-! ## Texts handed out -/

/-- The text that an answer hands out, if it hands out one. -/
def handedOut? : Option Item → Option Text
  | some (.ok t) => some t
  | some (.error _) | none => none

/-- The texts that answers hand out, from first to last. -/
def snapshots (answers : List (Option Item)) : List Text := answers.filterMap handedOut?

@[simp] theorem snapshots_append_text (answers : List (Option Item)) (t : Text) :
    snapshots (answers ++ [some (.ok t)]) = snapshots answers ++ [t] := by
  simp [snapshots, handedOut?]

@[simp] theorem snapshots_append_fault (answers : List (Option Item)) (f : Fault) :
    snapshots (answers ++ [some (.error f)]) = snapshots answers := by
  simp [snapshots, handedOut?]

@[simp] theorem snapshots_append_none (answers : List (Option Item)) :
    snapshots (answers ++ [none]) = snapshots answers := by
  simp [snapshots, handedOut?]

/-! ## Derivations -/

namespace Program

/-- The rule at position `i` is the first that has a match in `t`, and writing its replacement in
    place of the chosen match gives `t'`. -/
def Rewrites (p : Program) (i : Nat) (t t' : Text) : Prop :=
  ∃ r m new, Selects p.rules t i r m ∧ r.replacement m.groups = .ok new ∧ t' = Rule.splice m new

/-- The rule at position `i` ends the run. -/
def EndsAt (p : Program) (i : Nat) : Prop := ∃ r, p.rules[i]? = some r ∧ r.isFinal = true

/-- A text, the texts before it, from the initial one on, and the positions of the rules that led
    from each to the next. -/
inductive Derivation (p : Program) : List Text → Text → List Nat → Prop
  | initial : Derivation p [] p.initial []
  | step {earlier : List Text} {t t' : Text} {applied : List Nat} {i : Nat}
      (further : Derivation p earlier t applied) (rewrites : p.Rewrites i t t') :
      Derivation p (earlier ++ [t]) t' (applied ++ [i])

variable {p : Program}

theorem Derivation.length_eq {earlier : List Text} {t : Text} {applied : List Nat}
    (h : p.Derivation earlier t applied) : earlier.length = applied.length := by
  induction h with
  | initial => rfl
  | step _ _ ih => simp [ih]

theorem Derivation.of_nil {earlier : List Text} {t : Text} (h : p.Derivation earlier t []) :
    earlier = [] ∧ t = p.initial := by
  generalize happlied : ([] : List Nat) = applied at h
  cases h with
  | initial => exact ⟨rfl, rfl⟩
  | step => simp at happlied

theorem Derivation.of_concat {earlier : List Text} {t' : Text} {applied : List Nat} {i : Nat}
    (h : p.Derivation earlier t' (applied ++ [i])) :
    ∃ earlier' t, earlier = earlier' ++ [t] ∧ p.Rewrites i t t' := by
  generalize happlied : applied ++ [i] = applied' at h
  cases h with
  | initial => simp at happlied
  | step _ rewrites =>
    obtain ⟨-, rfl⟩ := List.append_singleton_inj.mp happlied
    exact ⟨_, _, rfl, rewrites⟩

/-- A step that gives a text applies a rule; the text is within the limit, and the rule ends the
    run or does not. -/
theorem rewrites_of_step {t t' : Text} {i : Nat} {isFinal : Bool}
    (h : p.step t = .rewritten i t' isFinal) :
    p.Rewrites i t t' ∧ units t' ≤ p.limits.units ∧ (isFinal = true ↔ p.EndsAt i) := by
  obtain ⟨r, m, new, hselects, hnew, htext, hshort, hfinal⟩ := step_eq_rewritten_iff.mp h
  refine ⟨⟨r, m, new, hselects, hnew, htext⟩, hshort, ?_⟩
  rw [hfinal]
  constructor
  · exact fun hends => ⟨r, hselects.position, hends⟩
  · rintro ⟨r', hposition, hends⟩
    obtain rfl := Option.some.inj (hselects.position.symm.trans hposition)
    exact hends

theorem Rewrites.lt_length {t t' : Text} {i : Nat} (h : p.Rewrites i t t') :
    i < p.rules.length := by
  obtain ⟨r, m, new, hselects, -, -⟩ := h
  exact (List.getElem?_eq_some_iff.mp hselects.position).1

end Program

/-! ## The history of a run -/

namespace Run

/-- How the state of a run, the answers that it gave and the rules that it applied fit together. -/
structure History (p : Program) (answers : List (Option Item)) (earlier : List Text)
    (applied : List Nat) (r : Run) : Prop where
  program_eq : r.program = p
  derivation : p.Derivation earlier r.current applied
  snapshots_eq : snapshots answers = if r.phase = .fresh then [] else earlier ++ [r.current]
  applied_of_fresh : r.phase = .fresh → applied = []
  steps_eq : r.steps = applied.length
  lastRule_eq : r.lastRule = applied.getLast?
  steps_le : r.steps ≤ p.limits.steps
  size_le : units r.current ≤ p.limits.units
  finalRule_iff : r.phase = .halted .finalRule ↔ ∃ i ∈ applied, p.EndsAt i
  ends_last : ∀ i ∈ applied.dropLast, ¬ p.EndsAt i
  noRuleApplies : r.phase = .halted .noRuleApplies →
    ∀ rule ∈ p.rules, ∀ m, ¬ rule.pattern.Decomposes r.current m
  failed_iff : r.phase = .failed ↔ ∃ f, some (.error f) ∈ answers

theorem history_start {p : Program} (h : units p.initial ≤ p.limits.units) :
    History p [] [] [] p.start where
  program_eq := rfl
  derivation := .initial
  snapshots_eq := rfl
  applied_of_fresh _ := rfl
  steps_eq := rfl
  lastRule_eq := rfl
  steps_le := Nat.zero_le _
  size_le := h
  finalRule_iff := by simp [Program.start]
  ends_last := by simp
  noRuleApplies := by simp [Program.start]
  failed_iff := by simp [Program.start]

/-- A run that has ended has handed out its current text last. -/
theorem History.snapshots_of_finished {p : Program} {answers : List (Option Item)}
    {earlier : List Text} {applied : List Nat} {r : Run} (h : History p answers earlier applied r)
    (hfinished : r.isFinished = true) : snapshots answers = earlier ++ [r.current] := by
  rw [h.snapshots_eq, if_neg]
  intro fresh
  simp [isFinished, fresh] at hfinished

/-- A fault changes nothing but the phase. -/
theorem History.fail {p : Program} {answers : List (Option Item)} {earlier : List Text}
    {applied : List Nat} {r : Run} (h : History p answers earlier applied r)
    (running : r.phase = .running) (f : Fault) :
    History p (answers ++ [some (.error f)]) earlier applied r.fail :=
  { h with
    snapshots_eq := by simp [h.snapshots_eq, running, Run.fail]
    applied_of_fresh := by simp [Run.fail]
    finalRule_iff := by simpa [running, Run.fail] using h.finalRule_iff
    noRuleApplies := by simp [Run.fail]
    failed_iff := by simp [Run.fail] }

/-- A pull keeps the history of a run, and adds a text and a rule if it takes a step. -/
theorem history_pulled {p : Program} {answers : List (Option Item)} {earlier : List Text}
    {applied : List Nat} {r r' : Run} {answer : Option Item}
    (h : History p answers earlier applied r) (hpull : Pulled r answer r') :
    ∃ earlier' applied', History p (answers ++ [answer]) earlier' applied' r' := by
  cases hpull with
  | initial fresh =>
    have happlied : applied = [] := h.applied_of_fresh fresh
    subst happlied
    have hearlier : earlier = [] := List.length_eq_zero_iff.mp h.derivation.length_eq
    subst hearlier
    exact ⟨[], [], { h with
      snapshots_eq := by simp [h.snapshots_eq, fresh]
      applied_of_fresh := by simp
      finalRule_iff := by simp
      noRuleApplies := by simp
      failed_iff := by simpa [fresh] using h.failed_iff }⟩
  | usedUp running noneLeft =>
    exact ⟨earlier, applied, h.fail running .tooManySteps⟩
  | stuck running left step =>
    exact ⟨earlier, applied, { h with
      snapshots_eq := by simp [h.snapshots_eq, running]
      applied_of_fresh := by simp
      finalRule_iff := by simpa [running] using h.finalRule_iff
      noRuleApplies := fun _ => Program.step_eq_stuck_iff.mp (h.program_eq ▸ step)
      failed_iff := by simpa [running] using h.failed_iff }⟩
  | @failed f running left step =>
    exact ⟨earlier, applied, h.fail running f⟩
  | @rewritten i t isFinal running left step =>
    rw [h.program_eq] at step left
    obtain ⟨hrewrites, hsize, hfinal⟩ := Program.rewrites_of_step step
    -- A final rule would have halted the run, so none was applied before this step.
    have hgoesOn : ∀ j ∈ applied, ¬ p.EndsAt j := by
      intro j hj hends
      have hhalted := h.finalRule_iff.mpr ⟨j, hj, hends⟩
      rw [running] at hhalted
      cases hhalted
    refine ⟨earlier ++ [r.current], applied ++ [i], { h with
      derivation := .step h.derivation hrewrites
      snapshots_eq := ?_
      applied_of_fresh := ?_
      steps_eq := by simp [h.steps_eq]
      lastRule_eq := by simp
      steps_le := left
      size_le := hsize
      finalRule_iff := ?_
      ends_last := by simpa using hgoesOn
      noRuleApplies := ?_
      failed_iff := ?_ }⟩
    · cases isFinal <;> simp [h.snapshots_eq, running]
    · cases isFinal <;> simp
    · have hlast : (∃ j ∈ applied ++ [i], p.EndsAt j) ↔ p.EndsAt i := by
        simpa using fun j hj hends => absurd hends (hgoesOn j hj)
      rw [hlast, ← hfinal]
      cases isFinal <;> simp
    · cases isFinal <;> simp
    · cases isFinal <;> simpa [running] using h.failed_iff
  | ended finished =>
    exact ⟨earlier, applied, { h with
      snapshots_eq := by rw [snapshots_append_none, h.snapshots_eq]
      failed_iff := by simpa using h.failed_iff }⟩

theorem history_pulls {p : Program} (h : units p.initial ≤ p.limits.units) (n : Nat) :
    ∃ earlier applied, History p (p.start.pulls n).1 earlier applied (p.start.pulls n).2 := by
  refine pulls_induction
    (motive := fun answers r => ∃ earlier applied, History p answers earlier applied r) ?_ ?_ n
  · exact ⟨[], [], history_start h⟩
  · rintro answers r answer r' ⟨earlier, applied, hhistory⟩ hpull
    exact history_pulled hhistory hpull

/-! ## What the state says -/

/-- What the stored state of a run says, after it has given these answers. -/
structure Reached (p : Program) (answers : List (Option Item)) (r : Run) : Prop where
  /-- The program is never changed. -/
  program_eq : r.program = p
  /-- The current text is the one that was handed out last; before that, the initial text. -/
  current_eq : r.current = (snapshots answers).getLastD p.initial
  /-- The current text is within the limit. -/
  size_le : units r.current ≤ p.limits.units
  /-- The first text handed out takes no step, and every further one takes one. -/
  steps_eq : r.steps = (snapshots answers).length - 1
  /-- The steps are within the limit. -/
  steps_le : r.steps ≤ p.limits.steps
  /-- So a counter of 64 bits that can hold the limit is never too small for the steps. -/
  steps_toUInt64 : p.limits.steps < UInt64.size → r.steps.toUInt64.toNat = r.steps
  /-- There is a last rule as soon as there was a step. -/
  lastRule_eq_none_iff : r.lastRule = none ↔ r.steps = 0
  /-- The last rule is a rule of the program, and it made the current text out of the one that was
      handed out before. -/
  lastRule_rewrites : ∀ i, r.lastRule = some i → i < p.rules.length ∧
    ∃ earlier t, snapshots answers = earlier ++ [t, r.current] ∧ p.Rewrites i t r.current
  /-- The texts handed out are a derivation with one rule for each step. The run has halted behind
      a final rule exactly when one of these rules is final, and none but the last can be. -/
  derivation : ∃ earlier applied, p.Derivation earlier r.current applied ∧
    (snapshots answers ≠ [] → snapshots answers = earlier ++ [r.current]) ∧
    applied.length = r.steps ∧
    (r.halt? = some .finalRule ↔ ∃ i ∈ applied, p.EndsAt i) ∧
    ∀ i ∈ applied.dropLast, ¬ p.EndsAt i
  /-- A run that has halted because no rule applies is at a text that no rule matches. -/
  noRuleApplies : r.halt? = some .noRuleApplies →
    ∀ rule ∈ p.rules, ∀ m, ¬ rule.pattern.Decomposes r.current m
  /-- A run has ended when it has halted or has handed out a fault. -/
  finished_iff : r.isFinished = true ↔ r.halt?.isSome = true ∨ ∃ f, some (.error f) ∈ answers
  /-- A run that has ended gives nothing more, and does not change. -/
  pulls_of_finished : r.isFinished = true → ∀ n, r.pulls n = (List.replicate n none, r)

theorem halt?_eq_some_iff {r : Run} {h : Halt} : r.halt? = some h ↔ r.phase = .halted h := by
  unfold halt?
  split <;> simp_all

theorem History.getLastD_snapshots {p : Program} {answers : List (Option Item)}
    {earlier : List Text} {applied : List Nat} {r : Run} (h : History p answers earlier applied r) :
    (snapshots answers).getLastD p.initial = r.current := by
  rw [h.snapshots_eq]
  split
  · rename_i fresh
    have hderivation := h.derivation
    rw [h.applied_of_fresh fresh] at hderivation
    exact hderivation.of_nil.2.symm
  · simp

theorem History.reached {p : Program} {answers : List (Option Item)} {earlier : List Text}
    {applied : List Nat} {r : Run} (h : History p answers earlier applied r) :
    Reached p answers r where
  program_eq := h.program_eq
  current_eq := h.getLastD_snapshots.symm
  size_le := h.size_le
  steps_eq := by
    rw [h.snapshots_eq, h.steps_eq]
    split
    · rename_i fresh
      simp [h.applied_of_fresh fresh]
    · simp [h.derivation.length_eq]
  steps_le := h.steps_le
  steps_toUInt64 hlimit :=
    UInt64.toNat_ofNat_of_lt' (Nat.lt_of_le_of_lt h.steps_le hlimit)
  lastRule_eq_none_iff := by
    rw [h.lastRule_eq, h.steps_eq, List.getLast?_eq_none_iff, List.length_eq_zero_iff]
  lastRule_rewrites := by
    intro i hi
    rw [h.lastRule_eq, List.getLast?_eq_some_iff] at hi
    obtain ⟨front, hfront⟩ := hi
    have hderivation := h.derivation
    rw [hfront] at hderivation
    obtain ⟨before, t, hearlier, hrewrites⟩ := hderivation.of_concat
    have hnotFresh : r.phase ≠ .fresh := by
      intro fresh
      have happlied := h.applied_of_fresh fresh
      simp [hfront] at happlied
    refine ⟨hrewrites.lt_length, before, t, ?_, hrewrites⟩
    rw [h.snapshots_eq, if_neg hnotFresh, hearlier, List.append_assoc, List.singleton_append]
  derivation := by
    refine ⟨earlier, applied, h.derivation, ?_, h.steps_eq.symm, ?_, h.ends_last⟩
    · rw [h.snapshots_eq]
      split <;> simp
    · rw [halt?_eq_some_iff, h.finalRule_iff]
  noRuleApplies hhalt := h.noRuleApplies (halt?_eq_some_iff.mp hhalt)
  finished_iff := by
    rw [← h.failed_iff]
    unfold isFinished halt?
    split <;> simp_all
  pulls_of_finished := Run.pulls_of_finished

end Run

/-- **The state of a run says what the run has done.** However often the run of a compiled program
    was pulled, its current text, its counter, its last rule and its phase agree with the items
    that it handed out and with the rules that made them, and they stay within the limits the
    program was compiled with. -/
theorem reached_of_pulls {limits : Limits} {source : Text} {p : Program}
    (h : Program.compile limits source = .ok p) (n : Nat) :
    p.limits = limits ∧ Run.Reached p (p.start.pulls n).1 (p.start.pulls n).2 := by
  obtain ⟨s, raw, rules, hread, -, -, rfl⟩ := Program.compile_eq_ok.mp h
  have hsize : units s.initial ≤ limits.units := (Source.read_eq_ok.mp hread).2
  obtain ⟨earlier, applied, hhistory⟩ :=
    Run.history_pulls (p := Program.ofSource limits source s rules) hsize n
  exact ⟨rfl, hhistory.reached⟩

/-- A plain and a final rule, with the largest limit of 64 bits: the final rule ends the run, and
    the pull behind it gives nothing. -/
theorem reached_of_pulls_final :
    ∃ p, Program.compile { steps := UInt64.size - 1 } "str ab;b=x;fin a=y".toList = .ok p ∧
      (p.start.pulls 4).1 =
        [some (.ok "ab".toList), some (.ok "ax".toList), some (.ok "yx".toList), none] ∧
      (p.start.pulls 4).2.halt? = some .finalRule ∧ p.limits = { steps := UInt64.size - 1 } ∧
      Run.Reached p (p.start.pulls 4).1 (p.start.pulls 4).2 := by
  have hcompile : Program.compile { steps := UInt64.size - 1 } "str ab;b=x;fin a=y".toList =
      .ok ⟨"ab".toList, [⟨.plain, ⟨"b".toList, []⟩, ⟨"x".toList, []⟩⟩,
        ⟨.final, ⟨"a".toList, []⟩, ⟨"y".toList, []⟩⟩],
        { steps := UInt64.size - 1 }, ⟨3, 2, 0, 2⟩⟩ := rfl
  exact ⟨_, hcompile, rfl, rfl, reached_of_pulls hcompile 4⟩

end NormalAlgorithm
