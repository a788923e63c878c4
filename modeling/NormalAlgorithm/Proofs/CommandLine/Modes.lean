import NormalAlgorithm.Proofs.Display.Windowed
import NormalAlgorithm.Proofs.Run.Drained

/-!
# With the transcript and without it

A program is answered in full, with its transcript, or in brief, with its result only. The two ways
take different routes through a run. The full answer records every text and forgets most of them;
the brief one skips the first item and remembers the latest text. They come to the same end: the
full answer is the brief one with the transcript written before it.

Results:
* `Run.items_pull`: behind the first item are the other items.
* `Run.laterText?_eq_result?`: both ways find the same result, whatever the window is.
* `Run.laterText?_eq_none_iff`: there is no result exactly if no step was taken.
* `Run.answerResult_cases`: the brief answer follows the outcome.
* `Run.answerTranscript_eq`: the full answer, by the brief one.
* `answerProgram_modes`: the same for programs, and what the exit code says.
-/

namespace NormalAlgorithm

/-! ## Answers and their parts -/

namespace Answer

@[simp] theorem code_after (out err : Text) (a : Answer) : (a.after out err).code = a.code := rfl

@[simp] theorem out_after (out err : Text) (a : Answer) : (a.after out err).out = out ++ a.out :=
  rfl

@[simp] theorem err_after (out err : Text) (a : Answer) : (a.after out err).err = err ++ a.err :=
  rfl

@[simp] theorem after_nil (a : Answer) : a.after [] [] = a := rfl

@[simp] theorem code_ofFault (palette : Palette) (f : Fault) : (ofFault palette f).code = 1 := rfl

@[simp] theorem out_ofFault (palette : Palette) (f : Fault) : (ofFault palette f).out = [] := rfl

@[simp] theorem code_ofVerdict (palette : Palette) (v : Verdict) : (ofVerdict palette v).code = 0 :=
  rfl

@[simp] theorem out_ofVerdict (palette : Palette) (v : Verdict) :
    (ofVerdict palette v).out = v.render palette := rfl

end Answer

namespace Run

/-! ## The result -/

/-- The result of a run as the brief answer finds it: the last text behind the first item. -/
def laterText? (r : Run) : Option Text := (r.pull.2.fold Latest.add {}).1.text

section

variable {r : Run} {texts : List Text} {fault? : Option Fault}

theorem items_pull (r : Run) : r.pull.2.items.1 = r.items.1.tail := by
  rcases hpull : r.pull with ⟨item?, r'⟩
  cases item? with
  | none => rw [items_of_done hpull, items_of_finished (finished_of_pull_none hpull), List.tail_nil]
  | some i => rw [items_of_item hpull, List.tail_cons]

theorem laterText?_of_items (h : r.items.1 = itemsOf texts fault?) :
    r.laterText? = texts.tail.getLast? := by
  rw [laterText?, fold_eq_foldl, items_pull, h]
  cases texts with
  | nil => cases fault? <;> rfl
  | cons t texts => simp [itemsOf_cons, foldl_latest]

theorem record_of_items (h : r.items.1 = itemsOf texts fault?) (window : Window) :
    r.record window = ⟨Transcript.ofTexts window texts, fault?⟩ := by
  rw [record, fold_eq_foldl, h, foldl_recording, Option.or_none, Transcript.ofTexts]

/-- The transcript may have elided the result's neighbours, but never the result. -/
theorem laterText?_eq_result? (r : Run) (window : Window) :
    r.laterText? = (r.record window).transcript.result? := by
  obtain ⟨texts, fault?, hitems⟩ := r.items_eq
  rw [laterText?_of_items hitems, record_of_items hitems, Transcript.result?_ofTexts]

end

section

variable {p : Program}

theorem laterText?_eq_none_iff (hsize : units p.initial ≤ p.limits.units) :
    p.start.laterText? = none ↔ p.start.outcome.steps = 0 := by
  obtain ⟨texts, fault?, hitems⟩ := p.start.items_eq
  obtain ⟨applied, hdrained⟩ := drained_of_items hsize hitems
  have hlength : texts.length = applied.length + 1 := hdrained.length_texts.1
  have hsteps : p.start.outcome.steps = applied.length := by
    rw [outcome_of_items hitems, hdrained.steps_eq]
  rw [laterText?_of_items hitems, hsteps, List.getLast?_eq_none_iff, ← List.length_eq_zero_iff,
    List.length_tail]
  omega

/-! ## Both answers of a run -/

/-- The run of a program begins with the initial text. -/
theorem exists_items_start (p : Program) :
    ∃ texts fault?, p.start.items.1 = itemsOf (p.initial :: texts) fault? := by
  obtain ⟨texts, fault?, hitems⟩ := (p.start.pull.2).items_eq
  refine ⟨texts, fault?, ?_⟩
  rw [items_of_item (pull_of_fresh rfl), itemsOf_cons, ← hitems]
  rfl

theorem answerResult_cases (p : Program) (palette : Palette) (longest : Nat) :
    (p.start.outcome.isOk = true ∧ p.start.answerResult palette longest =
        .ofVerdict palette (.ofResult longest p.start.laterText?)) ∨
      ∃ f, p.start.outcome.isOk = false ∧ p.start.answerResult palette longest =
        .ofFault palette f := by
  obtain ⟨texts, fault?, hitems⟩ := exists_items_start p
  rw [answerResult_eq palette longest hitems, laterText?_of_items hitems, outcome_of_items hitems]
  cases fault? with
  | none => exact .inl ⟨rfl, rfl⟩
  | some f => exact .inr ⟨f, rfl, rfl⟩

theorem code_answerResult (p : Program) (palette : Palette) (longest : Nat) :
    (p.start.answerResult palette longest).code = if p.start.outcome.isOk then 0 else 1 := by
  rcases answerResult_cases p palette longest with ⟨hok, heq⟩ | ⟨f, hok, heq⟩
  · rw [hok, heq, Answer.code_ofVerdict, if_pos rfl]
  · rw [hok, heq, Answer.code_ofFault, if_neg Bool.false_ne_true]

theorem out_answerResult_of_done {palette : Palette} {longest : Nat}
    (h : (p.start.answerResult palette longest).code = 0) :
    (p.start.answerResult palette longest).out =
      (Verdict.ofResult longest p.start.laterText?).render palette := by
  rcases answerResult_cases p palette longest with ⟨-, heq⟩ | ⟨f, -, heq⟩
  · rw [heq, Answer.out_ofVerdict]
  · rw [heq] at h
    cases h

theorem out_answerResult_of_failed {palette : Palette} {longest : Nat}
    (h : (p.start.answerResult palette longest).code = 1) :
    (p.start.answerResult palette longest).out = [] := by
  rcases answerResult_cases p palette longest with ⟨-, heq⟩ | ⟨f, -, heq⟩
  · rw [heq] at h
    cases h
  · rw [heq, Answer.out_ofFault]

theorem answerTranscript_eq (p : Program) (palette : Palette) (window : Window) (longest : Nat) :
    p.start.answerTranscript palette window longest =
      (p.start.answerResult palette longest).after
        ((p.start.record window).transcript.render palette) [] := by
  obtain ⟨texts, fault?, hitems⟩ := exists_items_start p
  rw [answerResult_eq palette longest hitems, answerTranscript, record_of_items hitems,
    Transcript.result?_ofTexts]
  cases fault? <;> rfl

end

end Run

/-! ## Both answers of a program -/

section

variable {build : Builder} {s : Settings} {t : Text}

theorem answerProgram_of_fault {f : Fault} (h : Program.compileWith build s.limits t = .error f)
    (time : Timing) : answerProgram build s time t = .ofFault (.ofBool s.color) f := by
  simp only [answerProgram, h]

/-- Of a program that is compiled, all answers are the brief one, with something before it. -/
theorem answerProgram_of_compiled {p : Program} (h : Program.compileWith build s.limits t = .ok p)
    (time : Timing) :
    answerProgram build s time t =
      ((p.start.answerResult (.ofBool s.color) s.longestResult).after
          (if s.resultOnly then []
            else (p.start.record s.window).transcript.render (.ofBool s.color)) []).after
        (if s.statistics then statistics (.ofBool s.color) p.counts time else []) [] := by
  simp only [answerProgram, h, Run.answerTranscript_eq]
  cases s.resultOnly <;> rfl

end

/-- **Both ways tell the same story.** For every program text, whether or not all its matchers can
    be made, and with or without statistics before the answer, the answer in full and the answer in
    brief have the same exit code and the same errors. The code is 0 if the program can be evaluated
    without a fault, and 1 otherwise. Where it is 0, the answer in full is the transcript and then
    exactly the answer in brief, which is the verdict on the result; where it is 1, the answer in
    brief is empty. What statistics add stands before both alike.

    The result is the same for every run, whatever the window of the transcript is, and there is
    none exactly if no step was taken. -/
theorem answerProgram_modes (build : Builder) (s : Settings) (time : Timing) (t : Text) :
    let palette := Palette.ofBool s.color
    let answer (statistics resultOnly : Bool) :=
      answerProgram build { s with statistics, resultOnly } time t
    (∀ statistics,
      (answer statistics true).code = (answer statistics false).code ∧
      (answer statistics true).err = (answer statistics false).err ∧
      (answer statistics true).code = if (evaluateWith build s.limits t).isOk then 0 else 1) ∧
    (∃ heading, ∀ resultOnly,
      answer true resultOnly = (answer false resultOnly).after heading []) ∧
    ((answer false true).code = 0 → ∃ p, Program.compileWith build s.limits t = .ok p ∧
      (answer false false).out =
        (p.start.record s.window).transcript.render palette ++ (answer false true).out ∧
      (answer false true).out =
        (Verdict.ofResult s.longestResult p.start.laterText?).render palette) ∧
    ((answer false true).code = 1 → (answer false true).out = []) ∧
    (∀ (r : Run) window, r.laterText? = (r.record window).transcript.result?) ∧
    ∀ p, Program.compileWith build s.limits t = .ok p →
      (p.start.laterText? = none ↔ (evaluateWith build s.limits t).steps = 0) := by
  intro palette answer
  cases hcompile : Program.compileWith build s.limits t with
  | error f =>
    have hanswer (statistics resultOnly : Bool) :
        answer statistics resultOnly = .ofFault palette f :=
      answerProgram_of_fault (s := { s with statistics, resultOnly }) hcompile time
    have hok : (evaluateWith build s.limits t).isOk = false := by
      rw [evaluateWith_of_fault hcompile]
      rfl
    refine ⟨fun statistics => ?_, ⟨[], fun resultOnly => ?_⟩, fun hcode => ?_, fun _ => ?_,
      Run.laterText?_eq_result?, nofun⟩
    · simp [hanswer, hok]
    · rw [hanswer, hanswer, Answer.after_nil]
    · rw [hanswer] at hcode
      cases hcode
    · rw [hanswer, Answer.out_ofFault]
  | ok p =>
    have hanswer (statistics resultOnly : Bool) :=
      answerProgram_of_compiled (s := { s with statistics, resultOnly }) hcompile time
    have hevaluate : evaluateWith build s.limits t = p.start.outcome :=
      evaluateWith_of_compiled hcompile
    have hbrief : answer false true = p.start.answerResult palette s.longestResult := hanswer _ _
    refine ⟨fun statistics => ?_, ⟨statistics palette p.counts time, fun resultOnly => ?_⟩,
      fun hcode => ⟨p, rfl, ?_, ?_⟩, fun hcode => ?_, Run.laterText?_eq_result?, ?_⟩
    · simp [answer, hanswer, hevaluate, Run.code_answerResult]
    · simp [answer, hanswer, palette]
    · simp [answer, hanswer, palette]
    · rw [hbrief] at hcode ⊢
      exact Run.out_answerResult_of_done hcode
    · rw [hbrief] at hcode ⊢
      exact Run.out_answerResult_of_failed hcode
    · rintro _ ⟨rfl⟩
      rw [hevaluate]
      exact Run.laterText?_eq_none_iff (Program.units_initial_le hcompile)

/-- A program whose only matcher is too large is refused in full and in brief alike. -/
example (resultOnly : Bool) :
    answerProgram (fun _ => some "too large".toList) { resultOnly } {} "str a;a=b".toList =
      { code := 1, err := "syntax error: Invalid rule pattern: too large\n".toList } := rfl

end NormalAlgorithm
