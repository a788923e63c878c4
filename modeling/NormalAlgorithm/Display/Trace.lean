import NormalAlgorithm.Display.Statistics
import NormalAlgorithm.Run
import NormalAlgorithm.Text.Quoted

/-!
# Traces

A trace shows the work behind an answer: what the source contained, what each directive made of the
rules, the patterns of the rules, each step of the run and how it ended. It is a list of events,
each of which is written as one line. A trace ends at the fault that ends the work.
-/

namespace NormalAlgorithm

/-- Something that a trace shows. Model of what `trace` is called with. -/
inductive Event where
  /-- The source was read; the initial text has this many bytes. -/
  | read (statements rules directives bytes : Nat)
  /-- A directive was applied. -/
  | expanded (token : Text) (values before after : Nat)
  /-- A rule was compiled. -/
  | compiled (kind : RuleKind) (key : Text) (pattern : Pattern)
  /-- The program is ready. -/
  | ready (rules : Nat)
  /-- A step was taken; the text has this many bytes. -/
  | stepped (steps rule bytes : Nat)
  /-- No rule applies any more. -/
  | stuck (steps : Nat)
  /-- The run was given up. -/
  | gaveUp (f : Fault) (steps : Nat)
  deriving DecidableEq, Repr

/-! ## Compiling -/

/-- What directives make of rules, as far as they can be applied. Model of what `apply_meta_rule`
    traces. -/
def traceExpansion (limit : Nat) : List RawRule → List Directive → List Event
  | _, [] => []
  | rules, d :: ds =>
    match decode d.token, d.apply limit rules with
    | some token, .ok out =>
      .expanded token (d.choices.cuts + 1) rules.length out.length :: traceExpansion limit out ds
    | _, _ => []

/-- The patterns of rules, as far as they can be compiled. Model of what `compile` of a
    `CompiledRule` traces. -/
def traceRules (build : Builder) : List RawRule → List Event
  | [] => []
  | r :: rs =>
    match r.compileWith build with
    | .ok rule => .compiled r.kind r.key rule.pattern :: traceRules build rs
    | .error _ => []

/-- The trace of compiling a program. Model of what `compile` of a `Program` traces. -/
def traceCompile (build : Builder) (limits : Limits) (t : Text) : List Event :=
  match Source.read limits t with
  | .error _ => []
  | .ok s =>
    .read (statements t).length s.rules.length s.directives.length (bytes s.initial) ::
      traceExpansion limits.rules s.rules s.directives ++
      match expandAll limits.rules s.rules s.directives with
      | .error _ => []
      | .ok raw =>
        traceRules build raw ++
          match Program.compileWith build limits t with
          | .error _ => []
          | .ok p => [.ready p.rules.length]

/-! ## Running -/

/-- The event of an item, given the run behind it. The initial text is no event. Model of what
    `step` and `next` trace. -/
def Run.event? (r : Run) : Item → Option Event
  | .ok _ => r.lastRule.map fun rule => .stepped r.steps rule (bytes r.current)
  | .error f => some (.gaveUp f r.steps)

/-- The events of a run from here on, behind those given in reverse. -/
def Run.traceFrom (events : List Event) (r : Run) : List Event :=
  match h : r.pull with
  | (none, r') =>
    (if r'.halt? = some .noRuleApplies then .stuck r'.steps :: events else events).reverse
  | (some item, r') =>
    have := remaining_lt_of_pull h
    r'.traceFrom ((r'.event? item).toList ++ events)
termination_by r.remaining

/-- The trace of a run. -/
def Run.trace (r : Run) : List Event := r.traceFrom []

/-! ## Lines -/

/-- The name of a kind of rule in a trace. -/
def RuleKind.name : RuleKind → Text
  | plain => "Plain".toList
  | final => "Fin".toList
  | character => "Chr".toList
  | codePoint => "Ord".toList

/-- The line that shows an event. The time is that of compiling. Model of the lines that `trace`
    writes. -/
def Event.render (time : Timing) : Event → Text
  | read statements rules directives bytes =>
    line ("[parse] statements=".toList ++ decimal statements ++ " rules=".toList ++ decimal rules ++
      " meta_rules=".toList ++ decimal directives ++ " initial_len=".toList ++ decimal bytes)
  | expanded token values before after =>
    line ("[expand] token=".toList ++ quote token ++ " values=".toList ++ decimal values ++
      " rules ".toList ++ decimal before ++ " -> ".toList ++ decimal after)
  | compiled kind key pattern =>
    line ("[compile] ".toList ++ kind.name ++ [' '] ++ quote key ++ " -> /".toList ++
      pattern.expression ++ ['/'])
  | ready rules =>
    line ("[compile] ".toList ++ decimal rules ++ " rules ready in ".toList ++ duration time.total)
  | stepped steps rule bytes =>
    line ("[step] n=".toList ++ decimal steps ++ " rule=".toList ++ decimal rule ++
      " len=".toList ++ decimal bytes)
  | stuck steps =>
    line ("[halt] no rule applies after ".toList ++ decimal steps ++ " steps".toList)
  | gaveUp f steps =>
    line ("[halt] ".toList ++ f.message ++ " after ".toList ++ decimal steps ++ " steps".toList)

end NormalAlgorithm
