import NormalAlgorithm.Pattern.Expression
import NormalAlgorithm.Pattern.Search
import NormalAlgorithm.Expansion
import NormalAlgorithm.Text.Numeral

/-!
# Rules

A rule that is ready to be applied: key and value are cut at bare percent signs and decoded. The
percent signs of the key are slots. Behind each percent sign of the value stands the group that
the slot of the same number took; when the value has more of them than the key, the last group is
repeated, and when the key has none, the percent sign stands for itself. The kind of the rule says
how a group is written.

A rule is compiled in two stages: its pieces are decoded, and a matcher is made out of the
expression for its key. Making matchers is not part of this library. It is a parameter here, of
which nothing is assumed: it may refuse any expression, for any reason.

Results:
* `RawRule.compile_eq_ok_iff`: a rule can be decoded exactly when all its pieces can.
* `RawRule.compileWith_accepting`: compiling is decoding, when every matcher can be made.
* `apply_eq_none_iff`: a rule applies exactly where its key is found.
-/

namespace NormalAlgorithm

/-- A rule, decoded. Model of `CompiledRule`, without its matcher. -/
structure Rule where
  kind : RuleKind
  key : Pieces
  value : Pieces
  deriving DecidableEq, Repr

/-! ## Kinds of rules -/

namespace RuleKind

/-- What the slots of a key take. Model of `slot_kind` of a `Keyword`. -/
def slot : RuleKind → Slot
  | character => .digits
  | plain | final | codePoint => .char

/-- Whether a rule ends the run. Model of `is_final` of a `Keyword`. -/
def isFinal : RuleKind → Bool
  | final => true
  | plain | character | codePoint => false

end RuleKind

/-- The character with a number, if there is one. -/
def charOfNumber? (n : Nat) : Option Char :=
  if h : n.isValidChar then some (Char.ofNatAux n h) else none

/-- How a group is written in the value of a rule. Model of `render_group` (rule compiler). -/
def RuleKind.render : RuleKind → Text → Except Fault Text
  | .plain, group | .final, group => .ok group
  | .codePoint, group => .ok (match group with | [] => [] | c :: _ => decimal c.toNat)
  | .character, group =>
    match (readDecimal? group).bind charOfNumber? with
    | some c => .ok [c]
    | none => .error (.notACharacter group)

/-! ## Decoding -/

/-- Cuts raw text at bare percent signs and decodes the pieces. Model of `unescape_segments` (rule
    compiler). -/
def decodePieces (t : Text) : Except Fault Pieces := (split (· = '%') t).mapM decodeOrFault

/-- Decodes a rule. The key is decoded before the value. Model of the first half of `compile` of a
    `CompiledRule`. -/
def RawRule.compile (r : RawRule) : Except Fault Rule := do
  let key ← decodePieces r.key
  let value ← decodePieces r.value
  return ⟨r.kind, key, value⟩

theorem RawRule.compile_eq_ok_iff {r : RawRule} {rule : Rule} :
    r.compile = .ok rule ↔
      rule.kind = r.kind ∧ decodePieces r.key = .ok rule.key ∧
        decodePieces r.value = .ok rule.value := by
  obtain ⟨kind, key, value⟩ := rule
  rw [RawRule.compile]
  cases decodePieces r.key <;> cases decodePieces r.value <;>
    simp [bind, Except.bind, pure, Except.pure, eq_comm]

/-! ## Compiling -/

/-- The pattern of the key. -/
def Rule.pattern (r : Rule) : Pattern := ⟨r.kind.slot, r.key⟩

/-- Makes matchers out of expressions, and gives the reason where it makes none. Stands for `build`
    of a `RegexBuilder`, under its limit on size. -/
abbrev Builder := Text → Option Text

/-- A builder that makes every matcher. -/
def Builder.accepting : Builder := fun _ => none

/-- Decodes a rule and has the matcher of its key made. Model of `compile` of a `CompiledRule`. -/
def RawRule.compileWith (build : Builder) (r : RawRule) : Except Fault Rule := do
  let rule ← r.compile
  match build rule.pattern.expression with
  | none => return rule
  | some reason => .error (.malformedPattern reason)

theorem RawRule.compileWith_accepting : compileWith .accepting = compile := by
  funext r
  rw [compileWith]
  cases r.compile <;> rfl

/-! ## Applying -/

namespace Rule

/-- Whether the rule ends the run. Model of `is_final` of a `CompiledRule`. -/
def isFinal (r : Rule) : Bool := r.kind.isFinal

/-- The group for the percent sign of the value that has this number, counted from zero. Model of
    how `replacement` chooses groups. -/
def groupAt (groups : List Text) (i : Nat) : Text :=
  (groups[min i (groups.length - 1)]?).getD ['%']

/-- The text that takes the place of a match with these groups. Model of `replacement`. -/
def replacement (r : Rule) (groups : List Text) : Except Fault Text := do
  let parts ← r.value.rest.zipIdx.mapM fun (piece, i) => do
    let group ← r.kind.render (groupAt groups i)
    return group ++ piece
  return r.value.first ++ parts.flatten

/-- Rewrites the leftmost match of the key, if there is one. Model of `apply`. -/
def apply (r : Rule) (t : Text) : Option (Except Fault Text) :=
  (r.pattern.find? t).map fun m => do
    let new ← r.replacement m.groups
    return m.before ++ new ++ m.after

theorem apply_eq_none_iff {r : Rule} {t : Text} : r.apply t = none ↔ r.pattern.find? t = none := by
  simp [apply]

end Rule

end NormalAlgorithm
