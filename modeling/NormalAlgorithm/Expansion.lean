import NormalAlgorithm.Source
import NormalAlgorithm.Text.Substitute

/-!
# Expansion

Directives work on the rules as they are written, before any rule is looked at. A directive makes,
out of each rule whose key holds its token, one rule for each of its values, with the value in
place of the token in key and value. In a rule whose key lacks the token, the first value takes
the token's place in the rule's value. Directives are applied in the order in which they are
written, so a later one sees the rules made by an earlier one.

The limit on rules is compared with the number of rules before a directive is applied, not with
the number that it makes.

Results:
* `apply_eq_ok`: when a directive can be applied, and what it makes.
-/

namespace NormalAlgorithm

/-! ## One rule -/

namespace RawRule

/-- The rule with a value in place of the token. -/
def substitute (token value : Text) (r : RawRule) : RawRule :=
  { r with key := replaceAll token value r.key, value := replaceAll token value r.value }

/-- The rules that a directive makes out of one rule. -/
def expand (token : Text) (values : Pieces) (r : RawRule) : List RawRule :=
  if occursIn token r.key then values.toList.map fun value => r.substitute token value
  else [{ r with value := replaceAll token values.first r.value }]

/-- The rule as it is written, without its keyword. -/
def text (r : RawRule) : Text := r.key ++ ['='] ++ r.value

end RawRule

/-! ## One directive -/

namespace Directive

/-- The values of a directive, as raw text. -/
def choices (d : Directive) : Pieces := split (· = ',') d.values

/-- Applies a directive to all rules. Model of `apply_meta_rule` (expander). -/
def apply (limit : Nat) (rules : List RawRule) (d : Directive) : Except Fault (List RawRule) := do
  let token ← decodeOrFault d.token
  let full := limit ≤ rules.length && !d.choices.rest.isEmpty
  match rules.find? fun r => full && occursIn token r.key with
  | some r => .error (.tooManyClones r.text)
  | none => .ok (rules.flatMap (RawRule.expand token d.choices))

theorem apply_eq_ok {limit : Nat} {rules out : List RawRule} {d : Directive}
    (h : d.apply limit rules = .ok out) :
    ∃ token, decode d.token = some token ∧
      out = rules.flatMap (RawRule.expand token d.choices) := by
  rw [apply] at h
  cases ht : decodeOrFault d.token with
  | error f => simp [ht, bind, Except.bind] at h
  | ok token =>
    refine ⟨token, decodeOrFault_eq_ok_iff.mp ht, ?_⟩
    simp only [ht, bind, Except.bind] at h
    split at h
    · simp at h
    · exact (Except.ok.inj h).symm

end Directive

/-! ## All directives -/

/-- Applies directives to rules, from first to last. Model of `expand` (expander). -/
def expandAll (limit : Nat) (rules : List RawRule) (ds : List Directive) :
    Except Fault (List RawRule) :=
  ds.foldlM (fun rules d => d.apply limit rules) rules

end NormalAlgorithm
