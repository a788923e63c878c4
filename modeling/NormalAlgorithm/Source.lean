import NormalAlgorithm.Fault
import NormalAlgorithm.Limits
import NormalAlgorithm.Statement

/-!
# Sources

What the statements of a program add up to: the initial text, the rules and the directives, each
in the order in which they are written. Statements are added one after the other, and the first
that cannot be added refuses the program.

Results:
* `add_comment`: comments add nothing.
* `read_eq_ok`: what a source that could be read is made of.
-/

namespace NormalAlgorithm

/-- The initial text, the rules and the directives of a program, as far as it has been read. Model
    of `ParsedSource` (parser). -/
structure Source where
  /-- The initial text, if a statement has given it. -/
  initial? : Option Text := none
  rules : List RawRule := []
  directives : List Directive := []
  deriving DecidableEq, Repr

namespace Source

/-- The initial text, which is empty unless a statement gives it. -/
def initial (s : Source) : Text := s.initial?.getD []

/-- Adds a statement. Model of the loop body of `parse_statements` (parser). -/
def add (limits : Limits) (s : Source) : Statement → Except Fault Source
  | .initial raw =>
    if s.initial?.isSome then .error .secondInitial
    else do
      let t ← decodeOrFault raw
      return { s with initial? := some t }
  | .rule r =>
    if limits.rules ≤ s.rules.length then .error .tooManyRules
    else .ok { s with rules := s.rules ++ [r] }
  | .directive d =>
    if limits.directives ≤ s.directives.length then .error .tooManyDirectives
    else .ok { s with directives := s.directives ++ [d] }
  | .unknown word => .error (.unknownKeyword word)
  | .comment => .ok s

/-- Adds statements, from first to last. -/
def addAll (limits : Limits) (s : Source) (sts : List Statement) : Except Fault Source :=
  sts.foldlM (add limits) s

/-- Reads a program. The size of the initial text is looked at when all statements are known. Model
    of `parse_statements` (parser). -/
def read (limits : Limits) (t : Text) : Except Fault Source := do
  let s ← addAll limits {} (statements t)
  if limits.units < units s.initial then .error .initialTooLong else .ok s

@[simp] theorem add_comment (limits : Limits) (s : Source) : s.add limits .comment = .ok s := rfl

theorem read_eq_ok {limits : Limits} {t : Text} {s : Source} :
    read limits t = .ok s ↔
      addAll limits {} (statements t) = .ok s ∧ units s.initial ≤ limits.units := by
  rw [read]
  cases addAll limits {} (statements t) with
  | error f => simp [bind, Except.bind]
  | ok s' =>
    simp only [bind, Except.bind]
    split
    · simp only [reduceCtorEq, Except.ok.injEq, false_iff, not_and]
      rintro rfl
      omega
    · simp only [Except.ok.injEq]
      constructor
      · rintro rfl; exact ⟨rfl, by omega⟩
      · exact fun h => h.1

end Source

end NormalAlgorithm
