import NormalAlgorithm.Proofs.CommandLine.InlineInput

/-!
# The program behind the options

Behind the groups of options stands what is left of a command line: nothing, or the words of a
program, with two hyphens in front of them or without. Either way the words are joined, a space
between each two, and given as the input. None of them is read as an option, whatever it looks like,
unless it is the first and there are no hyphens in front of it.

The hyphens make one difference. With them, words that join to nothing are not given as the input.
That is right where there are no words. But one empty word joins to nothing as well, and it is given
as the input everywhere else.

Results:
* `Argument.read_word`: what does not start with a hyphen is a word.
* `joinWords_eq_nil_iff`: which words join to nothing.
* `Request.read_programPart`: what stands behind the options is read as an input, or as nothing.
* `answer_endOfOptions_iff`: when it makes no difference to put two hyphens before a program.
-/

namespace NormalAlgorithm

/-! ## Words -/

/-- What starts with anything but a hyphen, or is empty, is no option. -/
theorem Argument.read_word {arg : Text} (h : arg.head? ≠ some '-') : Argument.read arg = .word := by
  have hnew : arg ∉ optionNames :=
    notMem_optionNames (fun name => name.head? = some '-') (by decide) (decide_eq_false h)
  have hinline : ¬ inlineInput <+: arg := by
    rintro ⟨t, rfl⟩
    exact h rfl
  rw [read_of_notMem hnew, if_neg hinline, if_neg h]

theorem joinWords_cons_cons (first second : Text) (rest : List Text) :
    joinWords (first :: second :: rest) = first ++ ' ' :: joinWords (second :: rest) := by
  simp [joinWords, List.intercalate]

theorem joinWords_eq_nil_iff {words : List Text} :
    joinWords words = [] ↔ words = [] ∨ words = [[]] := by
  match words with
  | [] => simp [joinWords]
  | [first] => simp [joinWords, List.intercalate]
  | first :: second :: rest => simp [joinWords_cons_cons]

/-! ## What stands behind the options -/

/-- The argument that ends the options. -/
def twoHyphens : Text := "--".toList

/-- The rest of a command line, behind the groups of options. -/
inductive ProgramPart where
  /-- There is nothing more. -/
  | absent
  /-- The words of a program, the first of which cannot be taken for an option. -/
  | words (first : Text) (rest : List Text) (word : first.head? ≠ some '-')
  /-- Two hyphens, and behind them any words. -/
  | marked (args : List Text)

namespace ProgramPart

/-- The arguments of which the part is made. -/
def arguments : ProgramPart → List Text
  | absent => []
  | words first rest _ => first :: rest
  | marked args => twoHyphens :: args

/-- The input that the part gives. -/
def input? : ProgramPart → Option Text
  | absent => none
  | words first rest _ => some (joinWords (first :: rest))
  | marked args => if joinWords args = [] then none else some (joinWords args)

end ProgramPart

theorem Request.read_programPart (s : Settings) (part : ProgramPart) :
    read s part.arguments =
      match part.input? with
      | none => .answer s
      | some t => .ofLast s (.input t) := by
  cases part with
  | absent => rfl
  | words first rest word => rw [ProgramPart.arguments, read, Argument.read_word word]; rfl
  | marked args =>
    have hread : Argument.read twoHyphens = .endOfOptions := by decide
    rw [ProgramPart.arguments, read, hread, ProgramPart.input?]
    cases joinWords args <;> simp

/-- Words are read like the value of the option for the input. -/
theorem Request.read_words {first : Text} (h : first.head? ≠ some '-') (rest : List Text)
    (s : Settings) :
    read s (first :: rest) = read s ["--input".toList, joinWords (first :: rest)] := by
  have hpart := read_programPart s (.words first rest h)
  rw [ProgramPart.arguments, ProgramPart.input?] at hpart
  rw [hpart, read, Argument.read_of_mem_inputOptions (by decide)]
  simp only [Request.ofLast, Valued.setting, Except.bind]
  cases s.set (.input (joinWords (first :: rest))) <;> rfl

/-! ## With two hyphens and without -/

theorem Request.read_marked {first : Text} (h : first.head? ≠ some '-') {rest : List Text}
    (hne : first :: rest ≠ [[]]) (s : Settings) :
    read s (twoHyphens :: first :: rest) = read s (first :: rest) := by
  have hjoined : joinWords (first :: rest) ≠ [] := by
    rw [Ne, joinWords_eq_nil_iff]
    exact not_or.mpr ⟨List.cons_ne_nil first rest, hne⟩
  have hmarked := read_programPart s (.marked (first :: rest))
  rw [ProgramPart.input?, if_neg hjoined] at hmarked
  exact hmarked.trans (read_programPart s (.words first rest h)).symm

/-- **When two hyphens make no difference.** Let the first word of a program not start with a
    hyphen. Behind any groups of options, the program is answered like the option for the input with
    the words as its value, joined by single spaces. Two hyphens in front of the words do not change
    the answer, whatever the command finds around it, exactly if the words are not one empty word.
    If they are, then with the hyphens the command is answered as if there were only the options. -/
theorem answer_endOfOptions_iff {first : Text} (h : first.head? ≠ some '-') (rest : List Text) :
    (∀ around time groups,
      answer around time (OptionGroup.argumentsOf groups ++ first :: rest) =
        answer around time
          (OptionGroup.argumentsOf groups ++ ["--input".toList, joinWords (first :: rest)])) ∧
    ((∀ around time groups,
        answer around time (OptionGroup.argumentsOf groups ++ twoHyphens :: first :: rest) =
          answer around time (OptionGroup.argumentsOf groups ++ first :: rest)) ↔
      first :: rest ≠ [[]]) ∧
    ∀ around time groups,
      answer around time (OptionGroup.argumentsOf groups ++ [twoHyphens, []]) =
        answer around time (OptionGroup.argumentsOf groups) := by
  refine ⟨fun around time groups => ?_, ⟨fun hsame hempty => ?_, fun hne around time groups => ?_⟩,
    fun around time groups => ?_⟩
  · exact answer_congr_behind (Request.read_words h rest) around time groups
  · -- With the hyphens, what waits to be read is escaped, and without them the empty word.
    obtain ⟨rfl, rfl⟩ := List.cons.inj hempty
    have hescape : (Argument.read "-e".toList).standsAlone = true := by decide
    have hanswers : answer { stdin := some "a".toList } {} ["-e".toList, twoHyphens, []] =
        answer { stdin := some "a".toList } {} ["-e".toList, []] :=
      hsame { stdin := some "a".toList } {} [.alone "-e".toList hescape]
    exact absurd hanswers (by decide)
  · exact answer_congr_behind (Request.read_marked h hne) around time groups
  · have hread : ∀ s, Request.read s [twoHyphens, []] = Request.read s [] :=
      fun s => Request.read_programPart s (.marked [[]])
    have hanswer := answer_congr_behind hread around time groups
    rwa [List.append_nil] at hanswer

/-- A program whose later words look like options, one of them empty. -/
theorem answer_endOfOptions_joined :
    "str".toList.head? ≠ some '-' ∧
      answer {} {} ["-e".toList, twoHyphens, "str".toList, "--stats".toList, [], "-x".toList] =
        { code := 0, out := "str --stats  -x\n".toList } := by
  have hword : "str".toList.head? ≠ some '-' := by decide
  have hescape : (Argument.read "-e".toList).standsAlone = true := by decide
  obtain ⟨hjoined, hmarked, -⟩ :=
    answer_endOfOptions_iff hword ["--stats".toList, [], "-x".toList]
  have hplain := hmarked.mpr (by decide) {} {} [.alone "-e".toList hescape]
  have hinput : answer {} {} ["-e".toList, "--input".toList, "str --stats  -x".toList] =
      { code := 0, out := "str --stats  -x\n".toList } := by decide
  exact ⟨hword, (hplain.trans (hjoined {} {} _)).trans hinput⟩

/-- One empty word is taken as the input, but not behind two hyphens. -/
theorem answer_endOfOptions_empty :
    answer { stdin := some "a".toList } {} ["-e".toList, "--".toList, "".toList] =
        { code := 0, out := "a\n".toList } ∧
      answer { stdin := some "a".toList } {} ["-e".toList, "".toList] =
        { code := 0, out := "\n".toList } := by
  decide

end NormalAlgorithm
