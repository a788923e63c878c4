import NormalAlgorithm.CommandLine.Answer
import NormalAlgorithm.Proofs.Run.Reached

/-!
# Runs, pulled to their end

Rewriting may go on forever; a run does not. It gives its initial text, one text for each step and
at most one fault, and from then on nothing. Every loop over a run is a fold over this list of
items, and what a loop makes of it depends on the list only.

The limit on steps is exact: a run that has used up its steps fails, unless its last step was that
of a final rule, and no run fails for its steps before they are used up.

Results:
* `exists_pulls_items`, `pulls_items`: the answers to all pulls, however many.
* `fold_eq_foldl`: a loop over a run is a fold over its items.
* `items_eq`: texts, and at most one fault behind them.
* `tooManySteps_mem_iff`: exactly when a run fails for its steps.
* `exists_drained`: what a run of a compiled program gives, and what is made of it.
-/

namespace NormalAlgorithm

namespace Run

/-! ## All items -/

/-- When all items are handed out, the next pull gives nothing. -/
theorem exists_pulls_items (r : Run) :
    ∃ r', r.pulls r.items.1.length = (r.items.1.map some, r') ∧ r'.pull = (none, r.items.2) := by
  induction r using pull_induction with
  | done r r' h =>
    rw [items_of_done h]
    exact ⟨r, rfl, h⟩
  | item r i r' h ih =>
    obtain ⟨last, hpulls, hlast⟩ := ih
    rw [items_of_item h]
    refine ⟨last, ?_, hlast⟩
    have hone : r.pulls 1 = ([some i], r') := by simp [pulls, h]
    rw [List.length_cons, Nat.add_comm, pulls_add, hone, hpulls]
    rfl

/-- Behind the items, every pull gives nothing. -/
theorem pulls_items (r : Run) (n : Nat) :
    (r.pulls (r.items.1.length + n)).1 = r.items.1.map some ++ List.replicate n none ∧
      (r.pulls (r.items.1.length + (n + 1))).2 = r.items.2 := by
  obtain ⟨last, hpulls, hlast⟩ := exists_pulls_items r
  have hone : last.pulls 1 = ([none], r.items.2) := by simp [pulls, hlast]
  have hbehind : ∀ m, last.pulls (m + 1) = (none :: List.replicate m none, r.items.2) := by
    intro m
    rw [Nat.add_comm, pulls_add, hone, pulls_of_finished (finished_of_pull_none hlast)]
    rfl
  constructor
  · rw [pulls_add, hpulls]
    cases n with
    | zero => simp [pulls]
    | succ n => rw [hbehind n, List.replicate_succ]
  · rw [pulls_add, hpulls, hbehind n]

theorem isFinished_items (r : Run) : r.items.2.isFinished = true := by
  obtain ⟨last, -, hlast⟩ := exists_pulls_items r
  exact finished_of_pull_none hlast

theorem fold_eq_foldl {β : Type} (f : β → Item → β) (b : β) (r : Run) :
    r.fold f b = (r.items.1.foldl f b, r.items.2) := by
  induction r using pull_induction generalizing b with
  | done r r' h => rw [fold_of_done _ _ h, items_of_done h, List.foldl_nil]
  | item r i r' h ih => rw [fold_of_item _ _ h, items_of_item h, ih, List.foldl_cons]

/-! ## Texts, and a fault behind them -/

/-- The items that hand out these texts, and then this fault, if there is one. -/
def itemsOf (texts : List Text) (fault? : Option Fault) : List Item :=
  texts.map .ok ++ fault?.toList.map .error

theorem itemsOf_cons (t : Text) (texts : List Text) (fault? : Option Fault) :
    itemsOf (t :: texts) fault? = .ok t :: itemsOf texts fault? := rfl

theorem length_itemsOf (texts : List Text) (fault? : Option Fault) :
    (itemsOf texts fault?).length = texts.length + fault?.toList.length := by
  simp [itemsOf]

theorem error_mem_itemsOf_iff {texts : List Text} {fault? : Option Fault} {f : Fault} :
    .error f ∈ itemsOf texts fault? ↔ fault? = some f := by
  simp [itemsOf, eq_comm]

theorem snapshots_itemsOf (texts : List Text) (fault? : Option Fault) (n : Nat) :
    snapshots ((itemsOf texts fault?).map some ++ List.replicate n none) = texts := by
  induction texts with
  | nil => cases fault? <;> simp [itemsOf, snapshots, handedOut?, List.filterMap_replicate]
  | cons t texts ih =>
    rw [itemsOf_cons, List.map_cons, List.cons_append]
    exact congrArg (t :: ·) ih

theorem items_eq (r : Run) : ∃ texts fault?, r.items.1 = itemsOf texts fault? := by
  induction r using pull_induction with
  | done r r' h => exact ⟨[], none, by rw [items_of_done h]; rfl⟩
  | item r i r' h ih =>
    rw [items_of_item h]
    cases i with
    | ok t =>
      obtain ⟨texts, fault?, hitems⟩ := ih
      exact ⟨t :: texts, fault?, by rw [hitems, itemsOf_cons]⟩
    | error f =>
      obtain ⟨-, rfl⟩ := pull_eq_error h
      have hended : r.fail.pull = (none, r.fail) := pull_of_finished rfl
      exact ⟨[], some f, by rw [items_of_done hended]; rfl⟩

/-! ## Running out of steps -/

theorem items_of_finished {r : Run} (h : r.isFinished = true) : r.items = ([], r) :=
  items_of_done (pull_of_finished h)

theorem step_ne_tooManySteps {p : Program} {t : Text} : p.step t ≠ .failed .tooManySteps := by
  intro h
  obtain ⟨i, r, m, -, hrefused | ⟨new, -, -, htooLong⟩⟩ := Program.step_eq_failed_iff.mp h
  · obtain ⟨group, hgroup⟩ := Rule.replacement_eq_error hrefused
    cases hgroup
  · cases htooLong

/-- A running run fails for its steps exactly when it uses them up and no final rule has ended
    it. -/
theorem tooManySteps_mem_iff {r : Run} (running : r.phase = .running)
    (hle : r.steps ≤ r.program.limits.steps) :
    .error .tooManySteps ∈ r.items.1 ↔
      r.items.2.steps = r.program.limits.steps ∧ r.items.2.phase ≠ .halted .finalRule := by
  induction r using pull_induction with
  | done r r' h =>
    rw [items_of_done h]
    cases pulled_of_pull h with
    | stuck _ left _ =>
      have hbefore : r.steps ≠ r.program.limits.steps := by omega
      simp [hbefore]
    | ended finished => simp [isFinished, running] at finished
  | item r i r' h ih =>
    rw [items_of_item h]
    cases pulled_of_pull h with
    | initial fresh => simp [running] at fresh
    | usedUp _ noneLeft =>
      have hused : r.steps = r.program.limits.steps := by omega
      rw [items_of_finished (r := r.fail) rfl]
      simp [fail, hused]
    | @failed f _ left step =>
      have hbefore : r.steps ≠ r.program.limits.steps := by omega
      have hother : f ≠ .tooManySteps := by
        rintro rfl
        exact step_ne_tooManySteps step
      rw [items_of_finished (r := r.fail) rfl]
      simp [fail, hbefore, Ne.symm hother]
    | @rewritten j t isFinal _ left step =>
      cases isFinal with
      | true =>
        rw [items_of_finished rfl]
        simp
      | false =>
        have hrest := ih rfl left
        simp only [List.mem_cons, reduceCtorEq, false_or]
        exact hrest

/-- The initial text takes no step, so that the same holds from the start. -/
theorem tooManySteps_mem_start_iff (p : Program) :
    .error .tooManySteps ∈ p.start.items.1 ↔
      p.start.items.2.steps = p.limits.steps ∧ p.start.items.2.phase ≠ .halted .finalRule := by
  have hstart : p.start.items =
      (.ok p.initial :: (Run.mk p p.initial 0 none .running).items.1,
        (Run.mk p p.initial 0 none .running).items.2) := items_of_item (pull_of_fresh rfl)
  have hrunning := tooManySteps_mem_iff (r := Run.mk p p.initial 0 none .running) rfl
    (Nat.zero_le _)
  rw [hstart]
  simpa using hrunning

/-! ## What loops make of the items -/

theorem foldl_latest (texts : List Text) (fault? : Option Fault) (l : Latest) :
    (itemsOf texts fault?).foldl Latest.add l = ⟨texts.getLast?.or l.text, fault?.or l.fault⟩ := by
  induction texts generalizing l with
  | nil => cases fault? <;> rfl
  | cons t texts ih =>
    rw [itemsOf_cons, List.foldl_cons, ih, List.getLast?_cons]
    cases texts.getLast? <;> rfl

/-- An outcome is the last text, the steps by then, and the fault. -/
theorem outcome_of_items {r : Run} {texts : List Text} {fault? : Option Fault}
    (h : r.items.1 = itemsOf texts fault?) :
    r.outcome = ⟨texts.getLast?, r.items.2.steps, fault?⟩ := by
  simp [outcome, fold_eq_foldl, h, foldl_latest]

theorem foldl_recording (texts : List Text) (fault? : Option Fault) (x : Recording) :
    (itemsOf texts fault?).foldl Recording.add x =
      ⟨texts.foldl Transcript.push x.transcript, fault?.or x.fault⟩ := by
  induction texts generalizing x with
  | nil => cases fault? <;> rfl
  | cons t texts ih =>
    rw [itemsOf_cons, List.foldl_cons, ih]
    rfl

/-- The result is sought behind the first text, which is the initial one. -/
theorem answerResult_eq {p : Program} {t : Text} {texts : List Text} {fault? : Option Fault}
    (palette : Palette) (longest : Nat) :
    p.start.items.1 = itemsOf (t :: texts) fault? → p.start.answerResult palette longest =
      match fault? with
      | some f => Answer.ofFault palette f
      | none => Answer.ofVerdict palette (.ofResult longest texts.getLast?) := by
  intro h
  have hfirst : p.start.pull = (some (.ok p.initial), { p.start with phase := .running }) :=
    pull_of_fresh rfl
  rw [items_of_item hfirst, itemsOf_cons, List.cons.injEq] at h
  rw [answerResult, hfirst, fold_eq_foldl, h.2, foldl_latest]
  cases fault? <;> simp

/-! ## Runs of programs -/

/-- What the run of a program gives: texts, perhaps a fault, and the rules that were applied. -/
structure Drained (p : Program) (texts : List Text) (fault? : Option Fault)
    (applied : List Nat) : Prop where
  /-- The texts are the initial text and, for each rule applied, what it made of the one before. -/
  derivation : ∃ earlier t, texts = earlier ++ [t] ∧ p.Derivation earlier t applied
  /-- There is at least one text, and no more than one for each step that the limit allows, and the
      initial one. -/
  length_texts : texts.length = applied.length + 1 ∧ applied.length ≤ p.limits.steps
  /-- The texts come first, then the fault, if there is one, and then nothing, forever. -/
  pulls_eq : ∀ n, (p.start.pulls (texts.length + fault?.toList.length + n)).1 =
    (itemsOf texts fault?).map some ++ List.replicate n none
  /-- Once a pull has given nothing, the run does not change any more. -/
  settled : ∀ n, (p.start.pulls (texts.length + fault?.toList.length + (n + 1))).2 = p.start.items.2
  /-- By then, one step was counted for each rule applied. -/
  steps_eq : p.start.items.2.steps = applied.length
  /-- The run fails for its steps exactly when it has taken all that the limit allows and none of
      the rules applied is final, whether or not another rule would apply. -/
  tooManySteps_iff : fault? = some .tooManySteps ↔
    applied.length = p.limits.steps ∧ ∀ i ∈ applied, ¬ p.EndsAt i

theorem drained_of_items {p : Program} {texts : List Text} {fault? : Option Fault}
    (hsize : units p.initial ≤ p.limits.units) (h : p.start.items.1 = itemsOf texts fault?) :
    ∃ applied, Drained p texts fault? applied := by
  have hpulls := fun n => p.start.pulls_items n
  rw [h, length_itemsOf] at hpulls
  obtain ⟨earlier, applied, hhistory⟩ :=
    history_pulls hsize (texts.length + fault?.toList.length + 1)
  rw [(hpulls 1).1, (hpulls 0).2] at hhistory
  have htexts : texts = earlier ++ [p.start.items.2.current] := by
    rw [← snapshots_itemsOf texts fault? 1]
    exact hhistory.snapshots_of_finished (isFinished_items p.start)
  refine ⟨applied, ⟨earlier, _, htexts, hhistory.derivation⟩, ?_, ?_, ?_, hhistory.steps_eq, ?_⟩
  · have hlength := hhistory.derivation.length_eq
    have hsteps := hhistory.steps_le
    rw [hhistory.steps_eq] at hsteps
    exact ⟨by rw [htexts, List.length_append, hlength, List.length_singleton], hsteps⟩
  · exact fun n => (hpulls n).1
  · exact fun n => (hpulls n).2
  · have hfinal : (∀ i ∈ applied, ¬ p.EndsAt i) ↔ p.start.items.2.phase ≠ .halted .finalRule := by
      rw [ne_eq, hhistory.finalRule_iff]
      simp
    have hmem : fault? = some .tooManySteps ↔ .error .tooManySteps ∈ p.start.items.1 := by
      rw [h, error_mem_itemsOf_iff]
    rw [hmem, ← hhistory.steps_eq, hfinal]
    exact tooManySteps_mem_start_iff p

end Run

/-- **Every loop over a run ends, and the limit on steps is exact.** The run of a compiled program
    gives texts, at least one and at most one more than the limit on steps, then at most one fault,
    and then nothing forever. It fails for its steps if and only if it has taken as many as the
    limit allows and none was that of a final rule. Any loop is the fold over these items:
    evaluating keeps the last text and the fault, the transcript records all texts, and the result
    is the last text behind the initial one. -/
theorem exists_drained {build : Builder} {limits : Limits} {source : Text} {p : Program}
    (h : Program.compileWith build limits source = .ok p) :
    p.limits = limits ∧ ∃ texts fault? applied, Run.Drained p texts fault? applied ∧
      (∀ (β : Type) (f : β → Item → β) (b : β),
        (p.start.fold f b).1 = (Run.itemsOf texts fault?).foldl f b) ∧
      evaluateWith build limits source = ⟨texts.getLast?, applied.length, fault?⟩ ∧
      (∀ window, p.start.record window = ⟨texts.foldl Transcript.push { window }, fault?⟩) ∧
      ∀ palette longest, p.start.answerResult palette longest =
        match fault? with
        | some f => Answer.ofFault palette f
        | none => Answer.ofVerdict palette (.ofResult longest texts.tail.getLast?) := by
  obtain ⟨texts, fault?, hitems⟩ := p.start.items_eq
  obtain ⟨applied, hdrained⟩ := Run.drained_of_items (Program.units_initial_le h) hitems
  refine ⟨Program.limits_of_compileWith h, texts, fault?, applied, hdrained, ?_, ?_, ?_, ?_⟩
  · intro β f b
    rw [Run.fold_eq_foldl, hitems]
  · rw [evaluateWith_of_compiled h]
    simp only [Run.outcome, Run.fold_eq_foldl, hitems, Run.foldl_latest, hdrained.steps_eq]
    simp
  · intro window
    rw [Run.record, Run.fold_eq_foldl, hitems, Run.foldl_recording]
    simp
  · intro palette longest
    cases texts with
    | nil =>
      have hlength := hdrained.length_texts.1
      simp at hlength
    | cons t texts => exact Run.answerResult_eq palette longest hitems

/-- With two steps allowed and two rules that apply once each, the run fails for its steps, although
    no rule applies to its last text. -/
theorem exists_drained_ceiling :
    ∃ p, Program.compile { steps := 2 } "str ab;a=x;b=y".toList = .ok p ∧
      evaluate { steps := 2 } "str ab;a=x;b=y".toList =
        ⟨some "xy".toList, 2, some .tooManySteps⟩ ∧
      p.step "xy".toList = .stuck ∧
      ∃ texts applied, Run.Drained p texts (some .tooManySteps) applied ∧
        texts.getLast? = some "xy".toList ∧ applied.length = 2 ∧ ∀ i ∈ applied, ¬ p.EndsAt i := by
  obtain ⟨p, hp⟩ : ∃ p, p = Program.mk "ab".toList [⟨.plain, ⟨"a".toList, []⟩, ⟨"x".toList, []⟩⟩,
    ⟨.plain, ⟨"b".toList, []⟩, ⟨"y".toList, []⟩⟩] { steps := 2 } ⟨3, 2, 0, 2⟩ := ⟨_, rfl⟩
  have hcompile : Program.compile { steps := 2 } "str ab;a=x;b=y".toList = .ok p := by
    rw [hp]
    rfl
  have hstuck : p.step "xy".toList = .stuck := by
    rw [hp]
    rfl
  have houtcome : p.start.outcome = ⟨some "xy".toList, 2, some .tooManySteps⟩ := by
    rw [hp, Run.outcome, Run.fold_of_item _ _ rfl, Run.fold_of_item _ _ rfl,
      Run.fold_of_item _ _ rfl, Run.fold_of_item _ _ rfl, Run.fold_of_done _ _ rfl]
    rfl
  have hevaluate : evaluate { steps := 2 } "str ab;a=x;b=y".toList =
      ⟨some "xy".toList, 2, some .tooManySteps⟩ := by
    rw [← houtcome]
    exact evaluateWith_of_compiled hcompile
  obtain ⟨-, texts, fault?, applied, hdrained, -, heval, -⟩ := exists_drained hcompile
  injection hevaluate.symm.trans heval with hlast hsteps hfault
  subst hfault
  exact ⟨p, hcompile, hevaluate, hstuck, texts, applied, hdrained, hlast.symm, hsteps.symm,
    (hdrained.tooManySteps_iff.mp rfl).2⟩

end NormalAlgorithm
