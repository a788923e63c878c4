import NormalAlgorithm.Proofs.CommandLine.GroupSettings
import NormalAlgorithm.Proofs.CommandLine.Modes

/-!
# The order of the options

The groups of options on a command line can be put into another order. Settings of one field, a
number or the colour, overwrite each other, so groups that set the same field must keep their order.
Of all others the order means nothing. Whether the command line is refused does not depend on the
order at all, for what refuses it is an invalid group or two groups that do not go together,
wherever they stand. Only which complaint is made depends on it: the first one.

Results:
* `Settings.InForce.reordered`: what is in force in another order.
* `Refused.perm`: what refuses a command line does so in every order.
* `answer_cases`: a command line without a group that asks is refused, or settings are in force.
* `answer_reordered`: the answer in another order.
* `answer_refused_otherwise`: a terminal, and a zero with a minus sign.
-/

namespace NormalAlgorithm

/-! ## Fields -/

/-- What the settings of one kind overwrite. -/
inductive Field where
  | quantity (q : Quantity)
  | color
  deriving DecidableEq, Repr

/-- The field that a setting overwrites, unless it is of a kind that does not. -/
def Setting.field? : Setting → Option Field
  | quantity q _ => some (.quantity q)
  | color _ => some .color
  | _ => none

theorem filterMap_filter_of_isSome {α β : Type} {f : α → Option β} {p : α → Bool}
    (h : ∀ x, (f x).isSome = true → p x = true) (xs : List α) :
    (xs.filter p).filterMap f = xs.filterMap f := by
  rw [List.filterMap_filter]
  refine List.filterMap_congr fun x _ => ?_
  cases hx : f x with
  | none => rw [ite_self]
  | some y => rw [if_pos (h x (by rw [hx, Option.isSome_some]))]

/-- In another order the same is in force, if settings of one field keep theirs. -/
theorem Settings.InForce.reordered {color : Bool} {xs xs' : List Setting} {s : Settings}
    (h : InForce color xs s) (hperm : xs.Perm xs')
    (hfields : ∀ field, xs.filter (·.field? = some field) = xs'.filter (·.field? = some field)) :
    InForce color xs' s where
  input t := by rw [h.input, hperm.mem_iff]
  conversion c := by rw [h.conversion, hperm.mem_iff]
  quantity q := by
    have hfield : ∀ x : Setting, (x.quantity? q).isSome = true →
        decide (x.field? = some (.quantity q)) = true := by
      rintro (_ | _ | _ | _ | _ | _) <;> simp [Setting.quantity?, Setting.field?]
    rw [h.quantity, ← filterMap_filter_of_isSome hfield, hfields, filterMap_filter_of_isSome hfield]
  color := by
    have hfield : ∀ x : Setting, x.color?.isSome = true →
        decide (x.field? = some .color) = true := by
      rintro (_ | _ | _ | _ | _ | _) <;> simp [Setting.color?, Setting.field?]
    rw [h.color, ← filterMap_filter_of_isSome hfield, hfields, filterMap_filter_of_isSome hfield]
  resultOnly := by rw [h.resultOnly, hperm.mem_iff]
  statistics := by rw [h.statistics, hperm.mem_iff]

namespace OptionGroup

/-- The setting of the group overwrites this field. -/
def sets (field : Field) (g : OptionGroup) : Bool := g.setting?.any (·.field? = some field)

/-- The same groups in another order, in which those that set the same field keep theirs. -/
structure Reordered (groups groups' : List OptionGroup) : Prop where
  perm : groups.Perm groups'
  sets (field : Field) : groups.filter (·.sets field) = groups'.filter (·.sets field)

end OptionGroup

section

variable {groups groups' : List OptionGroup}

theorem perm_settingsOf (h : groups.Perm groups') (part : ProgramPart) :
    (settingsOf groups part).Perm (settingsOf groups' part) :=
  (h.filterMap _).append_right _

theorem filter_settingsOf (groups : List OptionGroup) (part : ProgramPart) (field : Field) :
    (settingsOf groups part).filter (·.field? = some field) =
      (groups.filter (·.sets field)).filterMap OptionGroup.setting? := by
  have hpart : (part.input?.toList.map Setting.input).filter (·.field? = some field) = [] := by
    cases part.input? <;> rfl
  rw [settingsOf, List.filter_append, hpart, List.append_nil, List.filter_filterMap,
    List.filterMap_filter]
  refine List.filterMap_congr fun g _ => ?_
  rw [OptionGroup.sets]
  cases g.setting? <;> rfl

/-! ## What refuses a command line -/

/-- A group is invalid, two inputs are given, two different conversions are asked for, or there is
    no input at all: none is given, and the standard input is no text, or it is a terminal, where
    nothing waits to be read. -/
inductive Refused (around : Surroundings) (groups : List OptionGroup) (part : ProgramPart) : Prop
  | group {g : OptionGroup} (mem : g ∈ groups) (invalid : g.Invalid)
  | inputs (several : 2 ≤ (settingsOf groups part).countP Setting.isInput)
  | conversions {c c' : Conversion} (mem : .conversion c ∈ settingsOf groups part)
      (mem' : .conversion c' ∈ settingsOf groups part) (ne : c ≠ c')
  | unreadable (noInput : ∀ t, .input t ∉ settingsOf groups part) (notText : around.stdin = none)
  | terminal (noInput : ∀ t, .input t ∉ settingsOf groups part)
      (isTerminal : around.stdinIsTerminal = true)

variable {around : Surroundings} {part : ProgramPart}

theorem Refused.perm (h : Refused around groups part) (hperm : groups.Perm groups') :
    Refused around groups' part := by
  have hmem : ∀ x, x ∈ settingsOf groups part ↔ x ∈ settingsOf groups' part :=
    fun _ => (perm_settingsOf hperm part).mem_iff
  have hnone (noInput : ∀ t, .input t ∉ settingsOf groups part) :
      ∀ t, .input t ∉ settingsOf groups' part := fun t ht => noInput t ((hmem _).mpr ht)
  cases h with
  | group mem invalid => exact .group (hperm.mem_iff.mp mem) invalid
  | inputs several =>
    rw [(perm_settingsOf hperm part).countP_eq] at several
    exact .inputs several
  | conversions mem mem' ne => exact .conversions ((hmem _).mp mem) ((hmem _).mp mem') ne
  | unreadable noInput notText => exact .unreadable (hnone noInput) notText
  | terminal noInput isTerminal => exact .terminal (hnone noInput) isTerminal

theorem compatible_of_not_refused (h : ¬ Refused around groups part) :
    Compatible (settingsOf groups part) where
  input := by
    by_contra hseveral
    exact h (.inputs (Nat.lt_of_not_le hseveral))
  conversion c c' hc hc' := by
    by_contra hne
    exact h (.conversions hc hc' hne)

theorem Settings.exists_inputFrom_eq_error_iff {s : Settings} :
    (∃ c, s.inputFrom around = .error c) ↔
      s.input = none ∧ (around.stdinIsTerminal = true ∨ around.stdin = none) := by
  rw [inputFrom]
  cases s.input <;> cases around.stdinIsTerminal <;> cases around.stdin <;> simp

/-- Valid groups whose settings go together are refused exactly if there is no input. -/
theorem refused_iff_of_inForce {s : Settings} (hvalid : ∀ g ∈ groups, ¬ g.Invalid)
    (hcompatible : Compatible (settingsOf groups part))
    (hinForce : Settings.InForce around.stdoutIsTerminal (settingsOf groups part) s) :
    Refused around groups part ↔ ∃ c, s.inputFrom around = .error c := by
  have hnone : s.input = none ↔ ∀ t, .input t ∉ settingsOf groups part := by
    simp only [Option.eq_none_iff_forall_ne_some, ne_eq, hinForce.input]
  rw [Settings.exists_inputFrom_eq_error_iff, hnone]
  constructor
  · intro hrefused
    cases hrefused with
    | group mem invalid => exact absurd invalid (hvalid _ mem)
    | inputs several => exact absurd (several.trans hcompatible.input) (by decide)
    | conversions mem mem' ne => exact absurd (hcompatible.conversion _ _ mem mem') ne
    | unreadable noInput notText => exact ⟨noInput, .inr notText⟩
    | terminal noInput isTerminal => exact ⟨noInput, .inl isTerminal⟩
  · rintro ⟨noInput, isTerminal | notText⟩
    · exact .terminal noInput isTerminal
    · exact .unreadable noInput notText

/-! ## Answers -/

/-- Only what is refused gets the exit code 2. -/
theorem code_answerInput_ne_two (build : Builder) (s : Settings) (traced : Bool) (time : Timing)
    (t : Text) : (answerInput build s traced time t).code ≠ 2 := by
  have hprogram : (answerProgram build s time t).code ≠ 2 := by
    cases hcompile : Program.compileWith build s.limits t with
    | error f =>
      rw [answerProgram_of_fault hcompile, Answer.code_ofFault]
      decide
    | ok p =>
      rw [answerProgram_of_compiled hcompile, Answer.code_after, Answer.code_after,
        Run.code_answerResult]
      split <;> decide
  rw [answerInput]
  split
  · exact Nat.zero_ne_add_one 1
  · exact Nat.zero_ne_add_one 1
  · exact Nat.zero_ne_add_one 1
  · exact hprogram

/-- A command line without a group that asks is refused, or it is answered by what is in force. -/
theorem answer_cases (hasks : ∀ g ∈ groups, g.asks = false) (around : Surroundings) (time : Timing)
    (part : ProgramPart) :
    (Refused around groups part ∧ ∃ c,
        answer around time (OptionGroup.argumentsOf groups ++ part.arguments) = .ofComplaint c) ∨
      ¬ Refused around groups part ∧ ∃ s t,
        Settings.InForce around.stdoutIsTerminal (settingsOf groups part) s ∧
        s.inputFrom around = .ok t ∧
        answer around time (OptionGroup.argumentsOf groups ++ part.arguments) =
          answerInput around.build s around.traced time t := by
  rcases exists_request hasks around part with ⟨s, hrequest⟩ | ⟨c, hrequest⟩
  · obtain ⟨hvalid, hcompatible, hinForce⟩ := (request_eq_answer_iff hasks).mp hrequest
    have hiff := refused_iff_of_inForce hvalid hcompatible hinForce
    cases hfrom : s.inputFrom around with
    | error c =>
      refine .inl ⟨hiff.mpr ⟨c, hfrom⟩, c, ?_⟩
      simp only [answer, hrequest, answerSettings, hfrom]
    | ok t =>
      refine .inr ⟨fun hrefused => ?_, s, t, hinForce, hfrom, ?_⟩
      · obtain ⟨c, hc⟩ := hiff.mp hrefused
        cases hfrom.symm.trans hc
      · simp only [answer, hrequest, answerSettings, hfrom]
  · refine .inl ⟨?_, c, by simp only [answer, hrequest]⟩
    by_contra hnot
    have hcompatible := compatible_of_not_refused hnot
    obtain ⟨s, hmade⟩ : ∃ s, (settingsOf groups part).foldlM Settings.set
        (Settings.initial around.stdoutIsTerminal) = .ok s :=
      Settings.exists_foldlM_set_iff.mpr hcompatible
    have hread : request around (OptionGroup.argumentsOf groups ++ part.arguments) = .answer s :=
      (request_eq_answer_iff hasks).mpr ⟨fun g hg hinvalid => hnot (.group hg hinvalid),
        hcompatible, Settings.inForce_of_foldlM hmade⟩
    cases hrequest.symm.trans hread

theorem code_answer_eq_two_iff (hasks : ∀ g ∈ groups, g.asks = false) (time : Timing) :
    (answer around time (OptionGroup.argumentsOf groups ++ part.arguments)).code = 2 ↔
      Refused around groups part := by
  rcases answer_cases hasks around time part with
    ⟨hrefused, c, hanswer⟩ | ⟨hnot, s, t, -, -, hanswer⟩
  · rw [hanswer]
    exact iff_of_true rfl hrefused
  · rw [hanswer]
    exact iff_of_false (code_answerInput_ne_two around.build s around.traced time t) hnot

theorem answer_eq_of_reordered (hasks : ∀ g ∈ groups, g.asks = false)
    (h : OptionGroup.Reordered groups groups') (hnot : ¬ Refused around groups part)
    (time : Timing) :
    answer around time (OptionGroup.argumentsOf groups' ++ part.arguments) =
      answer around time (OptionGroup.argumentsOf groups ++ part.arguments) := by
  have hasks' : ∀ g ∈ groups', g.asks = false := fun g hg => hasks g (h.perm.mem_iff.mpr hg)
  have hfields : ∀ field, (settingsOf groups part).filter (·.field? = some field) =
      (settingsOf groups' part).filter (·.field? = some field) := by
    intro field
    rw [filter_settingsOf, filter_settingsOf, h.sets]
  rcases answer_cases hasks around time part with
    ⟨hrefused, -⟩ | ⟨-, s, t, hinForce, hfrom, hanswer⟩
  · exact absurd hrefused hnot
  rcases answer_cases hasks' around time part with
    ⟨hrefused, -⟩ | ⟨-, s', t', hinForce', hfrom', hanswer'⟩
  · exact absurd (hrefused.perm h.perm.symm) hnot
  obtain rfl : s = s' :=
    (hinForce.reordered (perm_settingsOf h.perm part) hfields).unique hinForce'
  obtain rfl : t = t' := Except.ok.inj (hfrom.symm.trans hfrom')
  exact hanswer'.trans hanswer.symm

/-- **The order of the options does not matter.** Let none of the groups on a command line ask for
    help or for the version, and let anything stand behind them. The exit code says that the
    command line is refused exactly if a group is invalid, two inputs are given, two different
    conversions are asked for, or no input is given and the standard input is no text or is a
    terminal. Otherwise the answer is that of the settings in force, where each field has its last
    value or its default.

    In another order of the groups, in which those that set the same field keep theirs, the exit
    code is the same, and so is the whole answer if the command line is not refused. -/
theorem answer_reordered (hasks : ∀ g ∈ groups, g.asks = false) (around : Surroundings)
    (time : Timing) (part : ProgramPart) :
    let answerOf (groups : List OptionGroup) :=
      answer around time (OptionGroup.argumentsOf groups ++ part.arguments)
    ((answerOf groups).code = 2 ↔ Refused around groups part) ∧
    (¬ Refused around groups part → ∃ s t,
      Settings.InForce around.stdoutIsTerminal (settingsOf groups part) s ∧
      s.inputFrom around = .ok t ∧
      answerOf groups = answerInput around.build s around.traced time t) ∧
    ∀ groups', OptionGroup.Reordered groups groups' →
      (answerOf groups').code = (answerOf groups).code ∧
      ((answerOf groups).code ≠ 2 → answerOf groups' = answerOf groups) := by
  intro answerOf
  have hcode : (answerOf groups).code = 2 ↔ Refused around groups part :=
    code_answer_eq_two_iff hasks time
  refine ⟨hcode, fun hnot => ?_, fun groups' h => ⟨?_, fun hne => ?_⟩⟩
  · rcases answer_cases hasks around time part with ⟨hrefused, -⟩ | ⟨-, hanswered⟩
    · exact absurd hrefused hnot
    · exact hanswered
  · by_cases hrefused : Refused around groups part
    · have hcode' : (answerOf groups').code = 2 := (code_answer_eq_two_iff
        (fun g hg => hasks g (h.perm.mem_iff.mpr hg)) time).mpr (hrefused.perm h.perm)
      rw [hcode', hcode.mpr hrefused]
    · exact congrArg Answer.code (answer_eq_of_reordered hasks h hrefused time)
  · exact answer_eq_of_reordered hasks h (fun hrefused => hne (hcode.mpr hrefused)) time

/-- A number that is overwritten, and an input that looks like an option and comes first or last. -/
theorem answer_reordered_overwritten :
    let rules (value : Text) : OptionGroup :=
      .valued (.quantity .rules) "--max-rules".toList value (by decide)
    let brief : OptionGroup := .alone "--result-only".toList (by decide)
    let input : OptionGroup := .valued .input "-i".toList "-x=ab;str -x".toList (by decide)
    let groups := [rules "0".toList, brief, rules "1".toList, input]
    let groups' := [input, rules "0".toList, rules "1".toList, brief]
    (∀ g ∈ groups, g.asks = false) ∧ OptionGroup.Reordered groups groups' ∧
      answer {} {} (OptionGroup.argumentsOf groups) = { code := 0, out := "ab\n".toList } ∧
      answer {} {} (OptionGroup.argumentsOf groups') = { code := 0, out := "ab\n".toList } := by
  intro rules brief input groups groups'
  have hasks : ∀ g ∈ groups, g.asks = false := by decide
  have hreordered : OptionGroup.Reordered groups groups' := by
    constructor
    case perm =>
      have hinput : ([rules "0".toList, brief, rules "1".toList] ++ [input]).Perm
          ([input] ++ [rules "0".toList, brief, rules "1".toList]) := List.perm_append_comm
      exact hinput.trans (((List.Perm.swap _ _ []).cons _).cons _)
    case sets => rintro ((_ | _ | _ | _ | _ | _ | _ | _) | _) <;> rfl
  have hanswer : answer {} {} (OptionGroup.argumentsOf groups) =
      { code := 0, out := "ab\n".toList } := by decide +kernel
  obtain ⟨-, -, hsame⟩ := answer_reordered hasks {} {} .absent
  obtain ⟨-, heq⟩ := hsame groups' hreordered
  have hne : (answer {} {} (OptionGroup.argumentsOf groups)).code ≠ 2 := by
    rw [hanswer]
    exact Nat.zero_ne_add_one 1
  exact ⟨hasks, hreordered, hanswer, (heq hne).trans hanswer⟩

/-- Invalid groups, inputs, conversions and unreadable input are not all that refuses a command
    line: without any argument it is refused at a terminal, although the standard input is text. And
    a group can be invalid for a number that is in range: zero with a minus sign is zero, but no
    option takes a minus sign. -/
theorem answer_refused_otherwise :
    (let around : Surroundings := { stdinIsTerminal := true }
      let groups : List OptionGroup := []
      let settings := settingsOf groups .absent
      ¬ ((answer around {} (OptionGroup.argumentsOf groups)).code = 2 ↔
        (∃ g ∈ groups, g.Invalid) ∨ 2 ≤ settings.countP Setting.isInput ∨
          (∃ c c', .conversion c ∈ settings ∧ .conversion c' ∈ settings ∧ c ≠ c') ∨
          (∀ t, .input t ∉ settings) ∧ around.stdin = none)) ∧
      (answer {} {} ["--head".toList, '-' :: decimal 0, "-e".toList, "a".toList]).code = 2 := by
  refine ⟨fun hiff => ?_, by decide⟩
  rcases hiff.mp rfl with ⟨g, hg, -⟩ | hseveral | ⟨c, c', hc, -, -⟩ | ⟨-, hnotText⟩
  · exact List.not_mem_nil hg
  · exact absurd hseveral (by decide)
  · exact List.not_mem_nil hc
  · cases hnotText

end

end NormalAlgorithm
