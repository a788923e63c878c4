import NormalAlgorithm.CommandLine.Settings
import NormalAlgorithm.Text.Numeral

/-!
# Arguments

Arguments are read from left to right. An option is one argument, or two where it takes a value.
The first argument that is no option starts the program text, which is made of this argument and
all that follow, with a space between each two. Two hyphens end the options as well. The first
argument that cannot be accepted refuses the whole command line, and a request for help or for the
version is answered as soon as it is met.

Results:
* `readQuantity?_eq_some_iff`: which texts are accepted as numbers.
-/

namespace NormalAlgorithm

/-! ## Values -/

/-- The largest number that an option accepts. -/
def largestQuantity : Nat := UInt64.size - 1

/-- Reads the value of an option that sets a number. A plus sign may stand in front. Model of the
    parsing in `number_arg`. -/
def readQuantity? (t : Text) : Option Nat :=
  (readDecimal? ((stripStart? ['+'] t).getD t)).filter (· ≤ largestQuantity)

theorem readQuantity?_eq_some_iff {t : Text} {n : Nat} :
    readQuantity? t = some n ↔
      readDecimal? ((stripStart? ['+'] t).getD t) = some n ∧ n ≤ largestQuantity := by
  simp [readQuantity?, Option.filter_eq_some_iff]

/-! ## Options -/

/-- The value that an option takes. -/
inductive Valued where
  | quantity (q : Quantity)
  | input
  deriving DecidableEq, Repr

/-- The name of an option that takes a value. The input has a second, shorter one. -/
def Valued.name : Valued → Text
  | quantity .rules => "--max-rules".toList
  | quantity .directives => "--max-meta-rules".toList
  | quantity .steps => "--max-iterations".toList
  | quantity .units => "--max-string-size".toList
  | quantity .result => "--max-result-size".toList
  | quantity .head => "--head".toList
  | quantity .tail => "--tail".toList
  | quantity .budget => "--render-budget".toList
  | input => "--input".toList

/-- The setting that an option makes with a value. Model of `number_arg`, and of the option for the
    input. -/
def Valued.setting (v : Valued) (value : Text) : Except Complaint Setting :=
  match v with
  | quantity q =>
    match readQuantity? value with
    | some n => .ok (.quantity q n)
    | none => .error (.notANumber v.name value)
  | input => .ok (.input value)

/-- What an argument means where an option is expected. -/
inductive Argument where
  /-- Asks for help. -/
  | help
  /-- Asks for the version. -/
  | version
  /-- An option without a value, or with its value in the same argument. -/
  | setting (s : Setting)
  /-- An option whose value is the next argument. -/
  | valued (v : Valued)
  /-- Two hyphens. -/
  | endOfOptions
  /-- An option that there is not. -/
  | unknown
  /-- The first word of the program text. -/
  | word
  deriving DecidableEq, Repr

/-- The options that are one argument each. -/
def plainOptions : List (Text × Argument) :=
  [("-h".toList, .help), ("--help".toList, .help),
    ("-V".toList, .version), ("--version".toList, .version),
    ("--color".toList, .setting (.color true)), ("--no-color".toList, .setting (.color false)),
    ("--stats".toList, .setting .statistics), ("--result-only".toList, .setting .resultOnly),
    ("-e".toList, .setting (.conversion .escape)),
    ("--escape".toList, .setting (.conversion .escape)),
    ("-o".toList, .setting (.conversion .decimal)),
    ("--ord".toList, .setting (.conversion .decimal)),
    ("-x".toList, .setting (.conversion .hexadecimal)),
    ("--hex-ord".toList, .setting (.conversion .hexadecimal)),
    ("--".toList, .endOfOptions)]

/-- The options that take the next argument as their value. -/
def valuedOptions : List (Text × Valued) :=
  ("-i".toList, .input) ::
    [Valued.quantity .rules, .quantity .directives, .quantity .steps, .quantity .units,
      .quantity .result, .quantity .head, .quantity .tail, .quantity .budget, .input].map
        fun v => (v.name, v)

/-- Takes a beginning off a text as often as it stands there. Model of `trim_start_matches`. -/
def stripStarts (b : Text) (t : Text) : Text :=
  match b with
  | [] => t
  | c :: cs => go c cs t.length t
where
  /-- At most as often as the number says. -/
  go (c : Char) (cs : Text) : Nat → Text → Text
    | 0, t => t
    | n + 1, t =>
      match stripStart? (c :: cs) t with
      | some rest => go c cs n rest
      | none => t

/-- The meaning of an argument where an option is expected. Model of the match on an argument in
    `parse_args`. -/
def Argument.read (arg : Text) : Argument :=
  match plainOptions.lookup arg, valuedOptions.lookup arg with
  | some a, _ => a
  | none, some v => .valued v
  | none, none =>
    let inline := "--input=".toList
    if (stripStart? inline arg).isSome then .setting (.input (stripStarts inline arg))
    else if arg.head? = some '-' then .unknown
    else .word

/-! ## All arguments -/

/-- What a command line asks for. -/
inductive Request where
  | help
  | version
  | answer (s : Settings)
  | refused (c : Complaint)
  deriving DecidableEq, Repr

/-- Words with a space between each two. -/
def joinWords (words : List Text) : Text := [' '].intercalate words

/-- The request made by settings to which one more is added at the end. -/
def Request.ofLast (s : Settings) (x : Setting) : Request :=
  match s.set x with
  | .ok s => .answer s
  | .error c => .refused c

/-- Reads the arguments, given the settings made so far. Model of the loop of `parse_args`. -/
def Request.read : Settings → List Text → Request
  | s, [] => .answer s
  | s, arg :: args =>
    match Argument.read arg with
    | .help => .help
    | .version => .version
    | .unknown => .refused (.unknownOption arg)
    | .word => .ofLast s (.input (joinWords (arg :: args)))
    | .endOfOptions =>
      let text := joinWords args
      if text.isEmpty then .answer s else .ofLast s (.input text)
    | .setting x =>
      match s.set x with
      | .ok s => Request.read s args
      | .error c => .refused c
    | .valued v =>
      match args with
      | [] => .refused (.missingValue v.name)
      | value :: args =>
        match (v.setting value).bind s.set with
        | .ok s => Request.read s args
        | .error c => .refused c

end NormalAlgorithm
