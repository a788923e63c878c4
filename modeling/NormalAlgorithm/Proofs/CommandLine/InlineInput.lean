import NormalAlgorithm.Proofs.CommandLine.Groups

/-!
# The input in the same argument

The input can be given as the value of an option, in the next argument, or in the same argument
behind an equals sign. The two are meant to be the same, and they are, unless the input itself
starts with the name of the option and an equals sign: in the same argument, all copies of this
beginning are taken off, and not only the first. Such an input cannot be given in this way.

Results:
* `stripStarts_append`, `stripStarts_of_not_isPrefix`: taking off a beginning, copy by copy.
* `exists_stripStarts`: what is left is what stands behind all copies.
* `Argument.read_of_notMem`: what an argument means that is no name of an option.
* `Argument.read_inline`: what the same argument gives as the input.
* `Request.read_inline`: it is read like the option with another input in the next argument.
* `answer_inline_iff`: which inputs can be given in the same argument.
-/

namespace NormalAlgorithm

/-! ## Taking off a beginning -/

section

variable {b t : Text}

theorem stripStarts_go_nil (c : Char) (cs : Text) (n : Nat) : stripStarts.go c cs n [] = [] := by
  cases n <;> rfl

/-- With as many tries as there are characters, no copy is left. -/
theorem stripStarts_go_eq (c : Char) (cs : Text) {m n : Nat} {t : Text} (hm : t.length ≤ m)
    (hn : t.length ≤ n) : stripStarts.go c cs m t = stripStarts.go c cs n t := by
  induction m generalizing n t with
  | zero =>
    have hnil : t = [] := List.length_eq_zero_iff.mp (Nat.le_zero.mp hm)
    rw [hnil, stripStarts_go_nil, stripStarts_go_nil]
  | succ m ih =>
    cases n with
    | zero =>
      have hnil : t = [] := List.length_eq_zero_iff.mp (Nat.le_zero.mp hn)
      rw [hnil, stripStarts_go_nil, stripStarts_go_nil]
    | succ n =>
      unfold stripStarts.go
      cases hstrip : stripStart? (c :: cs) t with
      | none => rfl
      | some rest =>
        rw [stripStart?_eq_some_iff] at hstrip
        have hlength : t.length = cs.length + 1 + rest.length := by
          rw [hstrip, List.length_append, List.length_cons]
        have hm' : rest.length ≤ m := by omega
        have hn' : rest.length ≤ n := by omega
        exact ih hm' hn'

theorem stripStarts_append (hne : b ≠ []) (t : Text) :
    stripStarts b (b ++ t) = stripStarts b t := by
  obtain ⟨c, cs, rfl⟩ := List.exists_cons_of_ne_nil hne
  have hlength : (c :: cs ++ t).length = cs.length + t.length + 1 := by
    rw [List.length_append, List.length_cons]
    omega
  show stripStarts.go c cs (c :: cs ++ t).length (c :: cs ++ t) = stripStarts.go c cs t.length t
  have hfirst : stripStarts.go c cs (cs.length + t.length + 1) (c :: cs ++ t) =
      stripStarts.go c cs (cs.length + t.length) t := by
    conv => lhs; rw [stripStarts.go, stripStart?_append]
  have hm : t.length ≤ cs.length + t.length := by omega
  rw [hlength, hfirst]
  exact stripStarts_go_eq c cs hm (Nat.le_refl t.length)

theorem stripStarts_of_not_isPrefix (h : ¬ b <+: t) : stripStarts b t = t := by
  cases b with
  | nil => rfl
  | cons c cs =>
    show stripStarts.go c cs t.length t = t
    cases hlength : t.length with
    | zero => rfl
    | succ n => rw [stripStarts.go, stripStart?_of_not_isPrefix h]

theorem exists_stripStarts (hne : b ≠ []) (t : Text) :
    ∃ n, t = (List.replicate n b).flatten ++ stripStarts b t ∧ ¬ b <+: stripStarts b t := by
  induction hlength : t.length using Nat.strongRecOn generalizing t with
  | ind size ih =>
    by_cases hstarts : b <+: t
    · obtain ⟨rest, rfl⟩ := hstarts
      have hshorter : rest.length < size := by
        have hpos := List.length_pos_iff.mpr hne
        rw [List.length_append] at hlength
        omega
      obtain ⟨n, hrest, hnone⟩ := ih rest.length hshorter rest rfl
      rw [stripStarts_append hne]
      refine ⟨n + 1, ?_, hnone⟩
      rw [List.replicate_succ, List.flatten_cons, List.append_assoc, ← hrest]
    · rw [stripStarts_of_not_isPrefix hstarts]
      exact ⟨0, rfl, hstarts⟩

end

/-! ## Both ways to give the input -/

/-- What stands in front of an input in the same argument. -/
def inlineInput : Text := "--input=".toList

/-- The names of the option whose value is the input. -/
def inputOptions : List Text := ["--input".toList, "-i".toList]

/-- No option has a name that starts like an input in the same argument. -/
theorem inline_notMem_optionNames (t : Text) : inlineInput ++ t ∉ optionNames := by
  have hstarts : inlineInput.isPrefixOf (inlineInput ++ t) = true := by
    rw [List.isPrefixOf_iff_prefix]
    exact List.prefix_append inlineInput t
  have hfails : (!inlineInput.isPrefixOf (inlineInput ++ t)) = false := by
    rw [hstarts]
    rfl
  exact notMem_optionNames (fun name => !inlineInput.isPrefixOf name) (by decide) hfails

/-- What an argument means that is no name of an option. -/
theorem Argument.read_of_notMem {arg : Text} (h : arg ∉ optionNames) :
    Argument.read arg =
      if inlineInput <+: arg then .setting (.input (stripStarts inlineInput arg))
      else if arg.head? = some '-' then .unknown
      else .word := by
  rw [optionNames, List.mem_append, not_or] at h
  unfold Argument.read
  rw [lookup_eq_none_iff_notMem.mpr h.1, lookup_eq_none_iff_notMem.mpr h.2]
  show (if (stripStart? inlineInput arg).isSome then
    Argument.setting (.input (stripStarts inlineInput arg)) else _) = _
  by_cases hinline : inlineInput <+: arg
  · obtain ⟨t, rfl⟩ := hinline
    rw [stripStart?_append, if_pos (List.prefix_append inlineInput t)]
    rfl
  · rw [stripStart?_of_not_isPrefix hinline, if_neg hinline]
    rfl

theorem Argument.read_inline (t : Text) :
    Argument.read (inlineInput ++ t) = .setting (.input (stripStarts inlineInput t)) := by
  rw [read_of_notMem (inline_notMem_optionNames t), if_pos (List.prefix_append inlineInput t),
    stripStarts_append (by decide)]

theorem Argument.read_of_mem_inputOptions {option : Text} (h : option ∈ inputOptions) :
    Argument.read option = .valued .input := by
  revert option
  decide

theorem Request.read_inline {option : Text} (h : option ∈ inputOptions) (t : Text)
    (args : List Text) (s : Settings) :
    read s ((inlineInput ++ t) :: args) =
      read s (option :: stripStarts inlineInput t :: args) := by
  rw [read, read, Argument.read_inline, Argument.read_of_mem_inputOptions h]
  rfl

/-- The input is what is escaped, if nothing but this is asked for. -/
theorem answer_escape (t : Text) :
    answer {} {} ["--input".toList, t, "-e".toList] = { code := 0, out := line (encode t) } := by
  rfl

theorem encode_injective {s t : Text} (h : encode s = encode t) : s = t := by
  have hdecode := congrArg decode h
  rw [decode_encode, decode_encode] at hdecode
  exact Option.some.inj hdecode

theorem answer_inline (around : Surroundings) (time : Timing) (groups : List OptionGroup)
    (t : Text) (args : List Text) {option : Text} (h : option ∈ inputOptions) :
    answer around time (OptionGroup.argumentsOf groups ++ (inlineInput ++ t) :: args) =
      answer around time
        (OptionGroup.argumentsOf groups ++ option :: stripStarts inlineInput t :: args) :=
  answer_congr_behind (Request.read_inline h t args) around time groups

/-- **Which inputs can be given in the same argument.** Behind any groups of options and in front of
    any arguments, the input that is given in the same argument is what is left of it without the
    copies of `--input=` it starts with. So it is answered like the same input in the next argument,
    wherever it stands, exactly if it does not start like this. -/
theorem answer_inline_iff (t : Text) :
    (∃ n rest, t = (List.replicate n inlineInput).flatten ++ rest ∧ ¬ inlineInput <+: rest ∧
      ∀ around time groups args, ∀ option ∈ inputOptions,
        answer around time (OptionGroup.argumentsOf groups ++ (inlineInput ++ t) :: args) =
          answer around time (OptionGroup.argumentsOf groups ++ option :: rest :: args)) ∧
    ((∀ around time groups args, ∀ option ∈ inputOptions,
        answer around time (OptionGroup.argumentsOf groups ++ (inlineInput ++ t) :: args) =
          answer around time (OptionGroup.argumentsOf groups ++ option :: t :: args)) ↔
      ¬ inlineInput <+: t) := by
  have hne : inlineInput ≠ [] := by decide
  obtain ⟨n, ht, hnone⟩ := exists_stripStarts hne t
  constructor
  · refine ⟨n, stripStarts inlineInput t, ht, hnone, ?_⟩
    intro around time groups args option hoption
    exact answer_inline around time groups t args hoption
  constructor
  · intro hsame hstarts
    -- Asking for nothing but the escaped input shows what has been read as the input.
    have hinput : "--input".toList ∈ inputOptions := by decide
    have hread := answer_inline {} {} [] t ["-e".toList] hinput
    have hnext := hsame {} {} [] ["-e".toList] _ hinput
    have hshown : answer {} {} ["--input".toList, stripStarts inlineInput t, "-e".toList] =
        answer {} {} ["--input".toList, t, "-e".toList] := hread.symm.trans hnext
    rw [answer_escape, answer_escape] at hshown
    have hline : line (encode (stripStarts inlineInput t)) = line (encode t) :=
      congrArg Answer.out hshown
    have hrest : stripStarts inlineInput t = t :=
      encode_injective (List.append_cancel_right hline)
    rw [hrest] at hnone
    exact hnone hstarts
  · intro hnot around time groups args option hoption
    have hread := answer_inline around time groups t args hoption
    rw [stripStarts_of_not_isPrefix hnot] at hread
    exact hread

/-- An input that starts with `--input=` loses this in the same argument. -/
theorem answer_inline_twice :
    answer {} {} ["--input=--input=a".toList, "-e".toList] = { code := 0, out := "a\n".toList } ∧
    answer {} {} ["--input".toList, "--input=a".toList, "-e".toList] =
      { code := 0, out := "--input\\=a\n".toList } := by
  decide

end NormalAlgorithm
