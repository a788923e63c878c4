import NormalAlgorithm.Proofs.CommandLine.InForce
import NormalAlgorithm.Proofs.CommandLine.ProgramPart

/-!
# What groups set

A group of options makes one setting, unless it is invalid: there may be no such option, or a number
may be expected where there is none. Only a group that asks for help or for the version makes no
setting and is not invalid either. A command line without such groups is read by making the settings
of all groups, one after the other, and then giving what stands behind them as the input. If this
cannot be done it is refused.

Results:
* `Argument.read_eq_unknown_iff`, `readQuantity?_eq_some_iff_writes`: what is no option, and which
  numbers an option takes.
* `OptionGroup.invalid_iff`: which groups make no setting.
* `request_eq_answer_iff`: when a command line is read, and what is in force then.
* `exists_request`: a command line is read or refused.
-/

namespace NormalAlgorithm

/-! ## Invalid groups -/

theorem Argument.read_eq_unknown_iff {arg : Text} :
    Argument.read arg = .unknown ↔
      arg.head? = some '-' ∧ arg ∉ optionNames ∧ ¬ inlineInput <+: arg := by
  have hnames : ∀ name ∈ optionNames, Argument.read name ≠ .unknown := by decide
  by_cases hnew : arg ∈ optionNames
  · exact iff_of_false (hnames arg hnew) fun h => h.2.1 hnew
  · rw [read_of_notMem hnew]
    split_ifs <;> simp_all

theorem Argument.cases_of_standsAlone {a : Argument} (h : a.standsAlone = true) :
    a = .help ∨ a = .version ∨ a = .unknown ∨ ∃ x, a = .setting x := by
  cases a with
  | help | version | unknown | setting => simp
  | valued | endOfOptions | word => cases h

/-- The text is a numeral of the number, maybe with zeros or a plus sign in front, and the number is
    not too large for an option. -/
def WritesQuantity (t : Text) (n : Nat) : Prop :=
  ∃ digits, (t = digits ∨ t = '+' :: digits) ∧ digits ≠ [] ∧ (∀ c ∈ digits, c.isDigit = true) ∧
    n = Nat.ofDigitChars 10 digits 0 ∧ n ≤ largestQuantity

theorem readDecimal?_eq_some_iff {t : Text} {n : Nat} :
    readDecimal? t = some n ↔
      t ≠ [] ∧ (∀ c ∈ t, c.isDigit = true) ∧ n = Nat.ofDigitChars 10 t 0 := by
  have htest : (!t.isEmpty && t.all Char.isDigit) = true ↔
      t ≠ [] ∧ ∀ c ∈ t, c.isDigit = true := by simp [List.all_eq_true]
  rw [readDecimal?]
  split
  · rename_i h
    obtain ⟨hne, hdigits⟩ := htest.mp h
    rw [Option.some.injEq, eq_comm]
    exact ⟨fun hn => ⟨hne, hdigits, hn⟩, fun h => h.2.2⟩
  · rename_i h
    constructor
    · intro hnone
      cases hnone
    · rintro ⟨hne, hdigits, -⟩
      exact absurd (htest.mpr ⟨hne, hdigits⟩) h

theorem readQuantity?_eq_some_iff_writes {t : Text} {n : Nat} :
    readQuantity? t = some n ↔ WritesQuantity t n := by
  rw [readQuantity?_eq_some_iff, readDecimal?_eq_some_iff]
  constructor
  · rintro ⟨⟨hne, hdigits, hn⟩, hle⟩
    refine ⟨_, ?_, hne, hdigits, hn, hle⟩
    cases hstrip : stripStart? ['+'] t with
    | none => exact .inl rfl
    | some digits => exact .inr (stripStart?_eq_some_iff.mp hstrip)
  · rintro ⟨digits, hsign, hne, hdigits, hn, hle⟩
    have hrest : (stripStart? ['+'] t).getD t = digits := by
      rcases hsign with rfl | rfl
      · have hplus : ¬ ['+'] <+: t := fun hstarts => by
          cases hdigits '+' (hstarts.subset List.mem_cons_self)
        rw [stripStart?_of_not_isPrefix hplus, Option.getD_none]
      · rfl
    rw [hrest]
    exact ⟨⟨hne, hdigits, hn⟩, hle⟩

namespace OptionGroup

/-- The group asks for help or for the version. -/
def asks : OptionGroup → Bool
  | alone option _ => Argument.read option = .help || Argument.read option = .version
  | valued .. => false

/-- There is no such option, or the value of the option should be a number in range and is not. -/
inductive Invalid : OptionGroup → Prop
  | unknown {option : Text} {standsAlone : (Argument.read option).standsAlone = true}
      (hyphen : option.head? = some '-') (new : option ∉ optionNames)
      (notInline : ¬ inlineInput <+: option) : Invalid (alone option standsAlone)
  | notANumber {q : Quantity} {option value : Text}
      {names : Argument.read option = .valued (.quantity q)}
      (noNumber : ∀ n, ¬ WritesQuantity value n) : Invalid (valued (.quantity q) option value names)

/-- The setting that a group makes, by itself. -/
def setting : OptionGroup → Except Complaint Setting
  | alone option _ =>
    match Argument.read option with
    | .setting x => .ok x
    | _ => .error (.unknownOption option)
  | valued v _ value _ => v.setting value

/-- The setting that a group makes, if it makes one. -/
def setting? (g : OptionGroup) : Option Setting := g.setting.toOption

variable {g : OptionGroup}

/-- A group that asks nothing is an option that there is not, or one that makes a setting if its
    value can be read. -/
theorem cases_of_asks (hasks : g.asks = false) :
    (∃ option h, g = alone option h ∧ Argument.read option = .unknown) ∨
      (∃ option h x, g = alone option h ∧ Argument.read option = .setting x) ∨
      ∃ v option value h, g = valued v option value h := by
  cases g with
  | alone option standsAlone =>
    rcases Argument.cases_of_standsAlone standsAlone with hread | hread | hread | ⟨x, hread⟩
    · simp [asks, hread] at hasks
    · simp [asks, hread] at hasks
    · exact .inl ⟨option, standsAlone, rfl, hread⟩
    · exact .inr (.inl ⟨option, standsAlone, x, rfl, hread⟩)
  | valued v option value names => exact .inr (.inr ⟨v, option, value, names, rfl⟩)

theorem invalid_iff (hasks : g.asks = false) : g.Invalid ↔ g.setting? = none := by
  rcases cases_of_asks hasks with ⟨option, h, rfl, hread⟩ | ⟨option, h, x, rfl, hread⟩ |
    ⟨v, option, value, names, rfl⟩
  · obtain ⟨hyphen, new, notInline⟩ := Argument.read_eq_unknown_iff.mp hread
    rw [setting?, setting, hread]
    exact iff_of_true (.unknown hyphen new notInline) rfl
  · rw [setting?, setting, hread]
    refine iff_of_false (fun hinvalid => ?_) (Option.some_ne_none x)
    cases hinvalid with
    | unknown hyphen new notInline =>
      cases hread.symm.trans (Argument.read_eq_unknown_iff.mpr ⟨hyphen, new, notInline⟩)
  · cases v with
    | quantity q =>
      have hsetting : (valued (.quantity q) option value names).setting? =
          (readQuantity? value).map (.quantity q) := by
        rw [setting?, setting, Valued.setting]
        cases readQuantity? value <;> rfl
      have hinvalid : (valued (.quantity q) option value names).Invalid ↔
          ∀ n, ¬ WritesQuantity value n := by
        constructor
        · intro hinvalid
          cases hinvalid with
          | notANumber noNumber => exact noNumber
        · exact .notANumber
      rw [hinvalid, hsetting, Option.map_eq_none_iff, Option.eq_none_iff_forall_ne_some]
      simp only [ne_eq, readQuantity?_eq_some_iff_writes]
    | input =>
      have hsetting : (valued .input option value names).setting? = some (.input value) := rfl
      rw [hsetting]
      refine iff_of_false (fun hinvalid => ?_) (Option.some_ne_none _)
      cases hinvalid

/-- A group that asks nothing makes its setting, and may complain in doing so. -/
theorem apply_eq (hasks : g.asks = false) (s : Settings) :
    g.apply s = (g.setting.bind s.set).mapError .refused := by
  rcases cases_of_asks hasks with ⟨option, h, rfl, hread⟩ | ⟨option, h, x, rfl, hread⟩ |
    ⟨v, option, value, names, rfl⟩
  · rw [apply, setting, hread]
    rfl
  · rw [apply, setting, hread]
    rfl
  · rfl

theorem apply_eq_ok_iff (hasks : g.asks = false) {s s' : Settings} :
    g.apply s = .ok s' ↔ ∃ x, g.setting? = some x ∧ s.set x = .ok s' := by
  rw [apply_eq hasks, setting?]
  cases g.setting with
  | error c => simp [Except.bind, Except.mapError, Except.toOption]
  | ok x => cases hset : s.set x <;> simp [Except.bind, Except.mapError, Except.toOption, hset]

theorem exists_refused_of_apply (hasks : g.asks = false) {s : Settings} {r : Request}
    (h : g.apply s = .error r) : ∃ c, r = .refused c := by
  rw [apply_eq hasks] at h
  cases hsetting : g.setting.bind s.set with
  | error c =>
    rw [hsetting] at h
    exact ⟨c, (Except.error.inj h).symm⟩
  | ok s' =>
    rw [hsetting] at h
    cases h

theorem foldlM_apply_eq_ok_iff {groups : List OptionGroup} (hasks : ∀ g ∈ groups, g.asks = false)
    {s s' : Settings} :
    groups.foldlM apply s = .ok s' ↔
      (∀ g ∈ groups, ¬ g.Invalid) ∧ (groups.filterMap setting?).foldlM Settings.set s = .ok s' := by
  induction groups generalizing s with
  | nil => simp [pure, Except.pure]
  | cons g groups ih =>
    obtain ⟨hg, hgroups⟩ := List.forall_mem_cons.mp hasks
    rw [List.foldlM_cons, bind_eq_ok_iff, List.forall_mem_cons, invalid_iff hg]
    simp only [apply_eq_ok_iff hg, ih hgroups]
    cases hsetting : g.setting? with
    | none => simp
    | some x =>
      rw [List.filterMap_cons_some hsetting, List.foldlM_cons, bind_eq_ok_iff]
      constructor
      · rintro ⟨s'', ⟨x', hx', hset⟩, hvalid, hrest⟩
        cases hx'
        exact ⟨⟨nofun, hvalid⟩, s'', hset, hrest⟩
      · rintro ⟨⟨-, hvalid⟩, s'', hset, hrest⟩
        exact ⟨s'', ⟨x, rfl, hset⟩, hvalid, hrest⟩

end OptionGroup

/-! ## Command lines -/

/-- The settings made by groups and by what stands behind them. -/
def settingsOf (groups : List OptionGroup) (part : ProgramPart) : List Setting :=
  groups.filterMap OptionGroup.setting? ++ part.input?.toList.map .input

theorem Request.read_programPart_eq_answer_iff {s s' : Settings} {part : ProgramPart} :
    read s part.arguments = .answer s' ↔
      (part.input?.toList.map Setting.input).foldlM Settings.set s = .ok s' := by
  rw [read_programPart]
  cases part.input? with
  | none =>
    rw [Option.toList_none, List.map_nil, List.foldlM_nil]
    exact ⟨fun h => congrArg _ (Request.answer.inj h), fun h => congrArg _ (Except.ok.inj h)⟩
  | some t =>
    rw [Option.toList_some, List.map_singleton, List.foldlM_cons, bind_eq_ok_iff]
    simp only [List.foldlM_nil, ofLast]
    cases s.set (.input t) <;> simp [pure, Except.pure]

theorem Request.exists_read_programPart (s : Settings) (part : ProgramPart) :
    (∃ s', read s part.arguments = .answer s') ∨ ∃ c, read s part.arguments = .refused c := by
  rw [read_programPart]
  cases part.input? with
  | none => exact .inl ⟨s, rfl⟩
  | some t =>
    simp only [ofLast]
    cases s.set (.input t) with
    | ok s' => exact .inl ⟨s', rfl⟩
    | error c => exact .inr ⟨c, rfl⟩

section

variable {groups : List OptionGroup}

/-- A command line without a group that asks is read or refused. -/
theorem exists_request (hasks : ∀ g ∈ groups, g.asks = false) (around : Surroundings)
    (part : ProgramPart) :
    (∃ s, request around (OptionGroup.argumentsOf groups ++ part.arguments) = .answer s) ∨
      ∃ c, request around (OptionGroup.argumentsOf groups ++ part.arguments) = .refused c := by
  rw [request, Request.read_argumentsOf]
  cases hfront : groups.foldlM OptionGroup.apply { color := around.stdoutIsTerminal } with
  | ok s => exact Request.exists_read_programPart s part
  | error r =>
    obtain ⟨s, g, hg, happly⟩ := foldlM_eq_error hfront
    exact .inr (OptionGroup.exists_refused_of_apply (hasks g hg) happly)

/-- A command line without a group that asks is read if all groups are valid and their settings go
    together with each other and with the input behind them. -/
theorem request_eq_answer_iff (hasks : ∀ g ∈ groups, g.asks = false) {around : Surroundings}
    {part : ProgramPart} {s : Settings} :
    request around (OptionGroup.argumentsOf groups ++ part.arguments) = .answer s ↔
      (∀ g ∈ groups, ¬ g.Invalid) ∧ Compatible (settingsOf groups part) ∧
        Settings.InForce around.stdoutIsTerminal (settingsOf groups part) s := by
  have hbehind : ∀ front : Except Request Settings,
      (∀ r, front = .error r → ∃ c, r = .refused c) →
      (Request.readBehind front part.arguments = .answer s ↔
        ∃ s', front = .ok s' ∧ Request.read s' part.arguments = .answer s) := by
    rintro (r | s') hfront
    · obtain ⟨c, rfl⟩ := hfront r rfl
      simp [Request.readBehind]
    · simp [Request.readBehind]
  rw [← Settings.foldlM_set_eq_ok_iff, settingsOf, List.foldlM_append, bind_eq_ok_iff, request,
    Request.read_argumentsOf, hbehind]
  · simp only [OptionGroup.foldlM_apply_eq_ok_iff hasks, Request.read_programPart_eq_answer_iff,
      and_assoc, exists_and_left, Settings.initial]
  · intro r hfront
    obtain ⟨s', g, hg, happly⟩ := foldlM_eq_error hfront
    exact OptionGroup.exists_refused_of_apply (hasks g hg) happly

end

end NormalAlgorithm
