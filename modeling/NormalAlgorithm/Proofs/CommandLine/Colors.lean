import NormalAlgorithm.Proofs.CommandLine.Groups
import NormalAlgorithm.Proofs.CommandLine.Modes
import NormalAlgorithm.Proofs.Display.Decorated

/-!
# With colour and without it

Two runs of the command that differ in the colour only do the same work. The setting is carried
along while the arguments are read and never looked at: what is refused is refused in both, and the
settings that are left differ in nothing else. It is looked at where something is written, and there
it decides about styles. So the answers are the same without their styles; and where the plain
answer is free of the escape character, it is the coloured one without its styles.

Results:
* `Request.plain_read`: what arguments ask for, but for the colour.
* `unstyled_answerProgram`, `unstyled_answerSettings`: settings are answered as they are without
  colour, but for the styles.
* `unstyled_answer`: arguments that ask for the same but for the colour.
* `escape_notMem_answerProgram`: when a plain answer is free of the escape character.
* `answer_colors`: whatever is written, with colour and without.
-/

namespace NormalAlgorithm

/-! ## Answers without styles -/

namespace Answer

/-- An answer without the styles of what is written. -/
def unstyled (a : Answer) : Answer :=
  { a with out := withoutStyles a.out, err := withoutStyles a.err }

theorem unstyled_eq_iff {a b : Answer} : a.unstyled = b.unstyled ↔
    a.code = b.code ∧ withoutStyles a.out = withoutStyles b.out ∧
      withoutStyles a.err = withoutStyles b.err := by
  rw [unstyled, unstyled, mk.injEq]

theorem unstyled_after {out err words words' : Text} (hout : Shows out words)
    (herr : Shows err words') (a : Answer) :
    (a.after out err).unstyled = a.unstyled.after words words' := by
  rw [unstyled, out_after, err_after, hout.selfContained, hout.words_eq, herr.selfContained,
    herr.words_eq]
  rfl

/-- An answer that is free of the escape character has no styles. -/
theorem unstyled_of_notMem {a : Answer} (hout : '\x1b' ∉ a.out) (herr : '\x1b' ∉ a.err) :
    a.unstyled = a := by
  rw [unstyled, withoutStyles_of_notMem hout, withoutStyles_of_notMem herr]

theorem unstyled_ofFault (palette : Palette) (f : Fault) :
    (ofFault palette f).unstyled = (ofFault .plain f).unstyled := by
  simp only [unstyled, ofFault, withoutStyles_fault]

theorem unstyled_ofVerdict (palette : Palette) (v : Verdict) :
    (ofVerdict palette v).unstyled = (ofVerdict .plain v).unstyled := by
  simp only [unstyled, ofVerdict, withoutStyles_verdict palette]

end Answer

theorem Run.unstyled_answerResult (palette : Palette) (longest : Nat) (r : Run) :
    (r.answerResult palette longest).unstyled = (r.answerResult .plain longest).unstyled := by
  unfold answerResult
  dsimp only
  split
  · exact Answer.unstyled_ofFault palette _
  · exact Answer.unstyled_ofVerdict palette _

/-! ## Settings but for the colour -/

/-- Settings without colour. -/
def Settings.plain (s : Settings) : Settings := { s with color := false }

/-- A request without colour. -/
def Request.plain : Request → Request
  | answer s => answer s.plain
  | request => request

section

variable {s s' : Settings}

theorem Settings.eq_of_plain (h : s.plain = s'.plain) : s = { s' with color := s.color } := by
  cases s
  cases s'
  simp_all [plain]

/-- Settings that differ in the colour only refuse the same settings, and otherwise they differ in
    the colour only again. -/
theorem Settings.set_cases_of_plain (h : s.plain = s'.plain) (x : Setting) :
    (∃ c, s.set x = .error c ∧ s'.set x = .error c) ∨
      ∃ r r', s.set x = .ok r ∧ s'.set x = .ok r' ∧ r.plain = r'.plain := by
  rw [eq_of_plain h]
  cases x with
  | color on | statistics | resultOnly => exact .inr ⟨_, _, rfl, rfl, rfl⟩
  | quantity q n => cases q <;> exact .inr ⟨_, _, rfl, rfl, rfl⟩
  | conversion c =>
    simp only [set]
    split
    · exact .inl ⟨_, rfl, rfl⟩
    · exact .inr ⟨_, _, rfl, rfl, rfl⟩
  | input t =>
    simp only [set]
    split
    · exact .inl ⟨_, rfl, rfl⟩
    · exact .inr ⟨_, _, rfl, rfl, rfl⟩

theorem Settings.exists_bind_set_of_ok (h : s.plain = s'.plain) {e : Except Complaint Setting}
    {r : Settings} (hset : e.bind s.set = .ok r) :
    ∃ r', e.bind s'.set = .ok r' ∧ r.plain = r'.plain := by
  cases e with
  | error c => cases hset
  | ok x =>
    rcases set_cases_of_plain h x with ⟨c, hs, -⟩ | ⟨r₁, r', hs, hs', hplain⟩
    · cases hset.symm.trans hs
    · obtain rfl : r = r₁ := Except.ok.inj (hset.symm.trans hs)
      exact ⟨r', hs', hplain⟩

theorem Settings.bind_set_of_error (h : s.plain = s'.plain) {e : Except Complaint Setting}
    {c : Complaint} (hset : e.bind s.set = .error c) : e.bind s'.set = .error c := by
  cases e with
  | error c' => exact hset
  | ok x =>
    rcases set_cases_of_plain h x with ⟨c', hs, hs'⟩ | ⟨r, r', hs, -, -⟩
    · exact hs'.trans (hs.symm.trans hset)
    · cases hset.symm.trans hs

namespace Request

theorem plain_ofLast (h : s.plain = s'.plain) (x : Setting) :
    (ofLast s x).plain = (ofLast s' x).plain := by
  rcases Settings.set_cases_of_plain h x with ⟨c, hs, hs'⟩ | ⟨r, r', hs, hs', hplain⟩
  · simp only [ofLast, hs, hs']
  · simp only [ofLast, hs, hs', plain, hplain]

/-- Whatever the colour is, the arguments ask for the same. -/
theorem plain_read (h : s.plain = s'.plain) (args : List Text) :
    (read s args).plain = (read s' args).plain := by
  have hanswer {r r' : Settings} (hplain : r.plain = r'.plain) :
      (answer r).plain = (answer r').plain := congrArg answer hplain
  fun_induction read s args generalizing s' with
  | case1 s => exact hanswer h
  | case2 s arg args harg | case3 s arg args harg | case4 s arg args harg =>
    simp only [read, harg]
  | case5 s arg args harg =>
    simp only [read, harg]
    exact plain_ofLast h _
  | case6 s arg args harg text =>
    rename_i hempty
    rw [read, harg]
    dsimp only
    rw [if_pos hempty]
    exact hanswer h
  | case7 s arg args harg text =>
    rename_i hempty
    rw [read, harg]
    dsimp only
    rw [if_neg hempty]
    exact plain_ofLast h _
  | case8 s arg args x harg r hset ih =>
    obtain ⟨r', hset', hplain⟩ : ∃ r', s'.set x = .ok r' ∧ r.plain = r'.plain :=
      Settings.exists_bind_set_of_ok h (e := .ok x) hset
    simp only [read, harg, hset', ih hplain]
  | case9 s arg args x harg c hset =>
    have hset' : s'.set x = .error c := Settings.bind_set_of_error h (e := .ok x) hset
    simp only [read, harg, hset']
  | case10 s arg v harg => simp only [read, harg]
  | case11 s arg v harg value args r hset ih =>
    obtain ⟨r', hset', hplain⟩ := Settings.exists_bind_set_of_ok h hset
    simp only [read, harg, hset', ih hplain]
  | case12 s arg v harg value args c hset =>
    simp only [read, harg, Settings.bind_set_of_error h hset]

end Request

end

/-! ## Answers but for the colour -/

theorem shows_nil : Shows [] [] := shows_of_notMem List.not_mem_nil

theorem unstyled_answerProgram (build : Builder) (s : Settings) (time : Timing) (t : Text) :
    (answerProgram build s time t).unstyled = (answerProgram build s.plain time t).unstyled := by
  cases hcompile : Program.compileWith build s.limits t with
  | error f =>
    rw [answerProgram_of_fault hcompile, answerProgram_of_fault (s := s.plain) hcompile]
    exact Answer.unstyled_ofFault _ f
  | ok p =>
    obtain ⟨heading, hheading⟩ : ∃ words, ∀ palette,
        Shows (if s.statistics then statistics palette p.counts time else []) words := by
      cases s.statistics with
      | false => exact ⟨[], fun _ => shows_nil⟩
      | true => exact ⟨_, fun palette => shows_statistics palette p.counts time⟩
    obtain ⟨lines, hlines⟩ : ∃ words, ∀ palette,
        Shows (if s.resultOnly then [] else (p.start.record s.window).transcript.render palette)
          words := by
      cases s.resultOnly with
      | false => exact ⟨_, fun palette => Transcript.shows_render palette _⟩
      | true => exact ⟨[], fun _ => shows_nil⟩
    have hwords (color : Bool) : (answerProgram build { s with color } time t).unstyled =
        ((p.start.answerResult .plain s.longestResult).unstyled.after lines []).after
          heading [] := by
      rw [answerProgram_of_compiled (s := { s with color }) hcompile,
        Answer.unstyled_after (hheading _) shows_nil, Answer.unstyled_after (hlines _) shows_nil,
        Run.unstyled_answerResult]
    exact (hwords s.color).trans (hwords false).symm

/-- A trace is made of lines. -/
theorem selfContained_traceProgram (build : Builder) (s : Settings) (time : Timing) (t : Text) :
    SelfContained (traceProgram build s time t) :=
  selfContained_flatMap fun e _ => by cases e <;> exact selfContained_line _

theorem unstyled_answerInput (build : Builder) (s : Settings) (traced : Bool) (time : Timing)
    (t : Text) :
    (answerInput build s traced time t).unstyled =
      (answerInput build s.plain traced time t).unstyled := by
  have htrace : SelfContained (if traced then traceProgram build s time t else []) := by
    split
    · exact selfContained_traceProgram build s time t
    · exact shows_nil.selfContained
  have hprogram := Answer.unstyled_after shows_nil ⟨htrace, rfl⟩
  unfold answerInput
  rw [show s.plain.conversion = s.conversion from rfl]
  split
  · rfl
  · rfl
  · rfl
  · -- The trace does not depend on the colour at all.
    rw [hprogram, unstyled_answerProgram, ← hprogram]
    rfl

theorem unstyled_answerSettings (around : Surroundings) (time : Timing) (s : Settings) :
    (answerSettings around time s).unstyled = (answerSettings around time s.plain).unstyled := by
  unfold answerSettings
  rw [show s.plain.inputFrom around = s.inputFrom around from rfl]
  split
  · exact unstyled_answerInput around.build s around.traced time _
  · rfl

/-- Arguments that ask for the same but for the colour get the same answer but for the styles. -/
theorem unstyled_answer {around : Surroundings} {args args' : List Text}
    (h : (request around args).plain = (request around args').plain) (time : Timing) :
    (answer around time args).unstyled = (answer around time args').unstyled := by
  unfold answer
  generalize request around args = r at h
  generalize request around args' = r' at h
  cases r <;> cases r' <;> simp only [Request.plain, reduceCtorEq] at h
  case help.help | version.version => rfl
  case refused.refused c c' => rw [Request.refused.inj h]
  case answer.answer s s' =>
    dsimp only
    rw [unstyled_answerSettings, Request.answer.inj h, ← unstyled_answerSettings]

theorem plain_request_colors (around : Surroundings) (groups : List OptionGroup)
    (behind : List Text) :
    (request around (OptionGroup.argumentsOf groups ++ "--color".toList :: behind)).plain =
      (request around (OptionGroup.argumentsOf groups ++ "--no-color".toList :: behind)).plain := by
  have hcolor : Argument.read "--color".toList = .setting (.color true) := by decide
  have hplain : Argument.read "--no-color".toList = .setting (.color false) := by decide
  unfold request
  rw [Request.read_argumentsOf, Request.read_argumentsOf]
  unfold Request.readBehind
  split
  · rfl
  · rw [Request.read, Request.read, hcolor, hplain]
    refine Request.plain_read ?_ behind
    rfl

/-! ## Answers free of the escape character -/

/-- All that a program text has to show is free of the escape character: the fault that refuses it,
    or the texts of its run and the fault that ends the run. -/
structure EscapeFree (build : Builder) (limits : Limits) (t : Text) : Prop where
  refused (f : Fault) : Program.compileWith build limits t = .error f → '\x1b' ∉ f.message
  shown (p : Program) : Program.compileWith build limits t = .ok p →
    ∀ u, .ok u ∈ p.start.items.1 → '\x1b' ∉ u
  failed (p : Program) : Program.compileWith build limits t = .ok p →
    ∀ f, .error f ∈ p.start.items.1 → '\x1b' ∉ f.message

section

variable {build : Builder} {limits : Limits} {t : Text}

theorem EscapeFree.of_items {p : Program} {texts : List Text} {fault? : Option Fault}
    (h : EscapeFree build limits t) (hcompile : Program.compileWith build limits t = .ok p)
    (hitems : p.start.items.1 = Run.itemsOf texts fault?) :
    (∀ u ∈ texts, '\x1b' ∉ u) ∧ ∀ f, fault? = some f → '\x1b' ∉ f.message := by
  constructor
  · intro u hu
    refine h.shown p hcompile u ?_
    rw [hitems]
    exact List.mem_append_left _ (List.mem_map_of_mem hu)
  · intro f hf
    refine h.failed p hcompile f ?_
    rw [hitems, Run.error_mem_itemsOf_iff]
    exact hf

theorem Run.escape_notMem_answerResult {p : Program} {t : Text} {texts : List Text}
    {fault? : Option Fault} (hitems : p.start.items.1 = itemsOf (t :: texts) fault?)
    (htexts : ∀ u ∈ texts, '\x1b' ∉ u) (hfault : ∀ f, fault? = some f → '\x1b' ∉ f.message)
    (longest : Nat) :
    '\x1b' ∉ (p.start.answerResult .plain longest).out ∧
      '\x1b' ∉ (p.start.answerResult .plain longest).err := by
  rw [answerResult_eq .plain longest hitems]
  cases fault? with
  | some f => exact ⟨List.not_mem_nil, escape_notMem_fault (hfault f rfl)⟩
  | none =>
    refine ⟨escape_notMem_verdict fun u hu => ?_, List.not_mem_nil⟩
    obtain ⟨hlast, -, -⟩ := Verdict.ofResult_eq_text_iff.mp hu
    exact htexts u (List.mem_of_getLast? hlast)

theorem escape_notMem_answerProgram {s : Settings} (h : EscapeFree build s.limits t)
    (time : Timing) :
    '\x1b' ∉ (answerProgram build s.plain time t).out ∧
      '\x1b' ∉ (answerProgram build s.plain time t).err := by
  cases hcompile : Program.compileWith build s.limits t with
  | error f =>
    rw [answerProgram_of_fault (s := s.plain) hcompile]
    exact ⟨List.not_mem_nil, escape_notMem_fault (h.refused f hcompile)⟩
  | ok p =>
    obtain ⟨texts, fault?, hitems⟩ := Run.exists_items_start p
    obtain ⟨htexts, hfault⟩ := h.of_items hcompile hitems
    obtain ⟨hout, herr⟩ := Run.escape_notMem_answerResult hitems
      (List.forall_mem_cons.mp htexts).2 hfault s.longestResult
    rw [answerProgram_of_compiled (s := s.plain) hcompile, Run.record_of_items hitems]
    refine ⟨?_, herr⟩
    simp only [Answer.out_after, List.mem_append, not_or]
    refine ⟨?heading, ?lines, hout⟩
    case heading =>
      split
      · exact escape_notMem_statistics p.counts time
      · exact List.not_mem_nil
    case lines =>
      split
      · exact List.not_mem_nil
      · exact Transcript.escape_notMem_render htexts

end

/-- **Colour only decorates.** Take the control sequences out of what is written in colour, and what
    is left is the plain output: of a transcript of any texts, whatever its window is, of any fault
    and of any verdict, if the texts that they show are free of the escape character, and of any
    statistics. The same goes for the whole answer to a program text, whoever makes the matchers, if
    all that it has to show is free of the escape character.

    On a command line, let one option or the other stand in the same place, behind any groups of
    options and before any arguments. The exit codes are equal. Without their control sequences the
    outputs are equal, whatever they show, and so are the errors, with a trace or without. If a
    plain one is free of the escape character, it is the coloured one without its control
    sequences. -/
theorem answer_colors :
    (∀ w texts, (∀ t ∈ texts, '\x1b' ∉ t) →
      withoutStyles ((Transcript.ofTexts w texts).render .color) =
        (Transcript.ofTexts w texts).render .plain) ∧
    (∀ f : Fault, '\x1b' ∉ f.message → withoutStyles (f.render .color) = f.render .plain) ∧
    (∀ v : Verdict, (∀ t, v = .text t → '\x1b' ∉ t) →
      withoutStyles (v.render .color) = v.render .plain) ∧
    (∀ counts time,
      withoutStyles (statistics .color counts time) = statistics .plain counts time) ∧
    (∀ build (s : Settings) time t, EscapeFree build s.limits t →
      (answerProgram build { s with color := true } time t).unstyled =
        answerProgram build { s with color := false } time t) ∧
    ∀ around time groups behind,
      let answerWith (option : Text) :=
        answer around time (OptionGroup.argumentsOf groups ++ option :: behind)
      let colored := answerWith "--color".toList
      let plain := answerWith "--no-color".toList
      colored.code = plain.code ∧
      withoutStyles colored.out = withoutStyles plain.out ∧
      withoutStyles colored.err = withoutStyles plain.err ∧
      ('\x1b' ∉ plain.out → withoutStyles colored.out = plain.out) ∧
      ('\x1b' ∉ plain.err → withoutStyles colored.err = plain.err) := by
  refine ⟨fun w texts h => ?_, fun f h => ?_, fun v h => ?_, fun counts time => ?_,
    fun build s time t h => ?_, fun around time groups behind => ?_⟩
  · rw [Transcript.withoutStyles_render,
      withoutStyles_of_notMem (Transcript.escape_notMem_render h)]
  · rw [withoutStyles_fault, ← withoutStyles_fault .plain,
      withoutStyles_of_notMem (escape_notMem_fault h)]
  · rw [withoutStyles_verdict, withoutStyles_of_notMem (escape_notMem_verdict h)]
  · exact (shows_statistics .color counts time).words_eq
  · obtain ⟨hout, herr⟩ := escape_notMem_answerProgram h time
    rw [unstyled_answerProgram]
    exact Answer.unstyled_of_notMem hout herr
  · intro answerWith colored plain
    obtain ⟨hcode, hout, herr⟩ := Answer.unstyled_eq_iff.mp
      (unstyled_answer (plain_request_colors around groups behind) time)
    exact ⟨hcode, hout, herr, fun h => hout.trans (withoutStyles_of_notMem h),
      fun h => herr.trans (withoutStyles_of_notMem h)⟩

/-- Texts that look like parts of control sequences, next to styles. -/
theorem answer_colors_brackets :
    let source := "a=[1m;str 7a".toList
    let plain := answer {} {} ["--no-color".toList, source]
    let build := Builder.accepting
    EscapeFree build Limits.wide source ∧
      (answerProgram build { color := true } {} source).unstyled =
        answerProgram build {} {} source ∧
      plain = { code := 0, out := "1. 7a\n2. 7[1m\n7[1m\n".toList } ∧
      withoutStyles (answer {} {} ["--color".toList, source]).out = plain.out := by
  intro source plain build
  have hitems : (Program.compileWith build .wide source).map (·.start.items.1) =
      .ok [.ok "7a".toList, .ok "7[1m".toList] := by decide +kernel
  have hitems' (p : Program) (hcompile : Program.compileWith build .wide source = .ok p) :
      p.start.items.1 = [.ok "7a".toList, .ok "7[1m".toList] := by
    rw [hcompile] at hitems
    exact Except.ok.inj hitems
  have hfree : EscapeFree build Limits.wide source := by
    refine ⟨fun f hcompile => ?_, fun p hcompile u hu => ?_, fun p hcompile f hf => ?_⟩
    · rw [hcompile] at hitems
      cases hitems
    · rw [hitems' p hcompile] at hu
      simp only [List.mem_cons, Except.ok.injEq, List.not_mem_nil, or_false] at hu
      rcases hu with rfl | rfl <;> decide
    · rw [hitems' p hcompile] at hf
      simp at hf
  obtain ⟨-, -, -, -, hprogram, harguments⟩ := answer_colors
  obtain ⟨-, -, -, hout, -⟩ := harguments {} {} [] [source]
  have hplain : plain = { code := 0, out := "1. 7a\n2. 7[1m\n7[1m\n".toList } := by decide +kernel
  have hfree' : '\x1b' ∉ plain.out := by
    rw [hplain]
    decide
  exact ⟨hfree, hprogram build {} {} source hfree, hplain, hout hfree'⟩

/-- A fault in colour has one style within another. -/
example : (answer {} {} ["--color".toList, "a=\\".toList]).err =
    ("\x1b[1m\x1b[31msyntax error:\x1b[0m\x1b[0m ".toList ++
      "Unexpected backslash immediately before end of text\n".toList) := by decide +kernel

end NormalAlgorithm
