import NormalAlgorithm.Rule

/-!
# Programs

A program that is ready to be run: its initial text and its rules, the first of which has the
highest priority. Compiling reads the source, applies the directives and compiles the rules, in this
order, and is given up at the first fault.

Results:
* `compileWith_eq_ok`: what a program that could be compiled is made of.
* `compile_eq_ok`: the same, when every matcher can be made.
* `limits_of_compileWith`, `units_initial_le`: a program keeps its limits, and its initial text is
  not too long for them.
* `rules_length`: the number of rules is the one that is counted.
-/

namespace NormalAlgorithm

/-- How much a source contained, and how much was made of it. Model of the counts in
    `CompileMetrics`. -/
structure Counts where
  /-- Statements, comments included. -/
  statements : Nat
  /-- Rules as written. -/
  written : Nat
  /-- Directives. -/
  directives : Nat
  /-- Rules after all directives are applied. -/
  expanded : Nat
  deriving DecidableEq, Repr

/-- An initial text, and rules in order of priority. Model of `Program`. -/
structure Program where
  initial : Text
  rules : List Rule
  limits : Limits
  counts : Counts
  deriving DecidableEq, Repr

namespace Program

/-- The program that is made of a source with these rules. -/
def ofSource (limits : Limits) (t : Text) (s : Source) (rules : List Rule) : Program :=
  { initial := s.initial
    rules
    limits
    counts :=
      { statements := (statements t).length
        written := s.rules.length
        directives := s.directives.length
        expanded := rules.length } }

/-- Compiles the text of a program and has the matchers of its keys made. Model of `compile` of a
    `Program`. -/
def compileWith (build : Builder) (limits : Limits) (t : Text) : Except Fault Program := do
  let s ← Source.read limits t
  let raw ← expandAll limits.rules s.rules s.directives
  let rules ← raw.mapM (RawRule.compileWith build)
  return ofSource limits t s rules

/-- Compiles the text of a program, where every matcher can be made. -/
def compile (limits : Limits) (t : Text) : Except Fault Program := compileWith .accepting limits t

theorem compileWith_accepting (limits : Limits) (t : Text) :
    compileWith .accepting limits t = compile limits t := rfl

section

variable {build : Builder} {limits : Limits} {t : Text} {p : Program}

theorem compileWith_eq_ok :
    compileWith build limits t = .ok p ↔
      ∃ s raw rules, Source.read limits t = .ok s ∧
        expandAll limits.rules s.rules s.directives = .ok raw ∧
        raw.mapM (RawRule.compileWith build) = .ok rules ∧ p = ofSource limits t s rules := by
  rw [compileWith]
  cases hs : Source.read limits t with
  | error f => simp [bind, Except.bind]
  | ok s =>
    cases hr : expandAll limits.rules s.rules s.directives with
    | error f => simp [bind, Except.bind, hr]
    | ok raw =>
      cases hm : raw.mapM (RawRule.compileWith build) with
      | error f => simp [bind, Except.bind, hr, hm]
      | ok rules => simp [bind, Except.bind, pure, Except.pure, hr, hm, eq_comm]

theorem compile_eq_ok :
    compile limits t = .ok p ↔
      ∃ s raw rules, Source.read limits t = .ok s ∧
        expandAll limits.rules s.rules s.directives = .ok raw ∧
        raw.mapM RawRule.compile = .ok rules ∧ p = ofSource limits t s rules := by
  rw [← compileWith_accepting, compileWith_eq_ok, RawRule.compileWith_accepting]

theorem limits_of_compileWith (h : compileWith build limits t = .ok p) : p.limits = limits := by
  obtain ⟨s, raw, rules, -, -, -, rfl⟩ := compileWith_eq_ok.mp h
  rfl

theorem units_initial_le (h : compileWith build limits t = .ok p) :
    units p.initial ≤ p.limits.units := by
  obtain ⟨s, raw, rules, hread, -, -, rfl⟩ := compileWith_eq_ok.mp h
  exact (Source.read_eq_ok.mp hread).2

theorem rules_length (h : compileWith build limits t = .ok p) :
    p.rules.length = p.counts.expanded := by
  obtain ⟨s, raw, rules, -, -, -, rfl⟩ := compileWith_eq_ok.mp h
  rfl

end

end Program

end NormalAlgorithm
