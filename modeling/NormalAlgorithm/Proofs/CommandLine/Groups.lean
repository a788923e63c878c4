import NormalAlgorithm.CommandLine.Answer

/-!
# Groups of arguments

The options of a command line come in groups: an option that takes a value is one with the argument
behind it, whatever that looks like, and every other option is alone. Arguments that are made of
complete groups are read group by group. Some group may settle what is answered; then it does not
matter what stands behind. Otherwise the settings that the groups have made are all that is left of
them.

Results:
* `lookup_eq_none_iff_notMem`, `notMem_optionNames`: which arguments are no name of an option.
* `Request.read_arguments`: one group in front of other arguments.
* `Request.read_argumentsOf`: any number of groups in front of other arguments.
* `answer_congr_behind`: behind groups, arguments that are read alike are answered alike.
-/

namespace NormalAlgorithm

/-- The names of the options. -/
def optionNames : List Text := plainOptions.map Prod.fst ++ valuedOptions.map Prod.fst

theorem lookup_eq_none_iff_notMem {β : Type} {options : List (Text × β)} {arg : Text} :
    options.lookup arg = none ↔ arg ∉ options.map Prod.fst := by
  rw [List.lookup_eq_none_iff, List.mem_map]
  simp only [bne_iff_ne, ne_eq, not_exists, not_and, @eq_comm _ arg]

/-- An argument that fails a test which all names pass is none of them. -/
theorem notMem_optionNames (test : Text → Bool) (h : optionNames.all test = true) {arg : Text}
    (harg : test arg = false) : arg ∉ optionNames := by
  intro hmem
  rw [List.all_eq_true.mp h arg hmem] at harg
  cases harg

/-- An argument that says something by itself and leaves the next argument to be an option. -/
def Argument.standsAlone : Argument → Bool
  | help | version | setting _ | unknown => true
  | valued _ | endOfOptions | word => false

/-- An option, with its value where it takes one. -/
inductive OptionGroup where
  | alone (option : Text) (standsAlone : (Argument.read option).standsAlone = true)
  | valued (v : Valued) (option value : Text) (names : Argument.read option = .valued v)

namespace OptionGroup

/-- The arguments of a group. -/
def arguments : OptionGroup → List Text
  | alone option _ => [option]
  | valued _ option value _ => [option, value]

/-- The arguments of groups that stand one behind the other. -/
def argumentsOf (groups : List OptionGroup) : List Text := groups.flatMap arguments

/-- What a group makes of the settings made so far. It may settle the request instead. -/
def apply (s : Settings) : OptionGroup → Except Request Settings
  | alone option _ =>
    match Argument.read option with
    | .help => .error .help
    | .version => .error .version
    | .setting x => (s.set x).mapError .refused
    | _ => .error (.refused (.unknownOption option))
  | valued v _ value _ => ((v.setting value).bind s.set).mapError .refused

end OptionGroup

namespace Request

/-- Arguments that stand behind something: either it has settled the request, or it has left these
    settings. -/
def readBehind (front : Except Request Settings) (args : List Text) : Request :=
  match front with
  | .error request => request
  | .ok s => read s args

theorem read_arguments (s : Settings) (g : OptionGroup) (args : List Text) :
    read s (g.arguments ++ args) = readBehind (g.apply s) args := by
  cases g with
  | alone option standsAlone =>
    rw [OptionGroup.arguments, List.singleton_append, read, OptionGroup.apply]
    cases hread : Argument.read option with
    | help => rfl
    | version => rfl
    | setting x => cases hset : s.set x <;> simp only [hset] <;> rfl
    | unknown => rfl
    | valued v => simp [hread, Argument.standsAlone] at standsAlone
    | endOfOptions => simp [hread, Argument.standsAlone] at standsAlone
    | word => simp [hread, Argument.standsAlone] at standsAlone
  | valued v option value names =>
    rw [OptionGroup.arguments, List.cons_append, List.singleton_append, read, names,
      OptionGroup.apply]
    cases hset : (v.setting value).bind s.set <;> simp only [hset] <;> rfl

theorem read_argumentsOf (s : Settings) (groups : List OptionGroup) (args : List Text) :
    read s (OptionGroup.argumentsOf groups ++ args) =
      readBehind (groups.foldlM OptionGroup.apply s) args := by
  induction groups generalizing s with
  | nil => rfl
  | cons g groups ih =>
    rw [OptionGroup.argumentsOf, List.flatMap_cons, List.append_assoc, read_arguments,
      List.foldlM_cons]
    cases hfirst : g.apply s with
    | error request => rfl
    | ok s' => exact ih s'

end Request

/-- Behind groups, arguments that are read alike whatever the settings are get the same answer. -/
theorem answer_congr_behind {args args' : List Text}
    (h : ∀ s, Request.read s args = Request.read s args') (around : Surroundings) (time : Timing)
    (groups : List OptionGroup) :
    answer around time (OptionGroup.argumentsOf groups ++ args) =
      answer around time (OptionGroup.argumentsOf groups ++ args') := by
  have hrequest : request around (OptionGroup.argumentsOf groups ++ args) =
      request around (OptionGroup.argumentsOf groups ++ args') := by
    unfold request
    rw [Request.read_argumentsOf, Request.read_argumentsOf]
    unfold Request.readBehind
    split
    · rfl
    · exact h _
  rw [answer, answer, hrequest]

end NormalAlgorithm
