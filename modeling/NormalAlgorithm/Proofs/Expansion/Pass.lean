import NormalAlgorithm.Expansion
import NormalAlgorithm.Proofs.Fallible

/-!
# One pass over the rules

Each directive is applied in one pass over all rules. A pass can fail in two ways only, and what it
makes out of a rule depends on this rule alone, whether or not its key holds the token.

Results:
* `occursIn_iff_isInfix`: a token occurs in a text exactly when it is an infix of it.
* `apply_eq_ok_iff`: exactly when a pass succeeds, and what it makes.
* `expandAll_cons_eq_ok_iff`, `expandAll_invariant`: several passes, one after the other.
-/

namespace NormalAlgorithm

/-! ## Tokens -/

theorem occursIn_iff_isInfix {token t : Text} : occursIn token t = true ↔ token <:+: t := by
  rw [occursIn_iff]
  simp only [List.IsInfix, eq_comm]

/-! ## One directive -/

theorem RawRule.expand_of_isInfix {token : Text} {values : Pieces} {r : RawRule}
    (h : token <:+: r.key) : r.expand token values = values.toList.map (r.substitute token ·) :=
  if_pos (occursIn_iff_isInfix.mpr h)

theorem RawRule.expand_of_not_isInfix {token : Text} {values : Pieces} {r : RawRule}
    (h : ¬ token <:+: r.key) :
    r.expand token values = [{ r with value := replaceAll token values.first r.value }] :=
  if_neg fun hoccurs => h (occursIn_iff_isInfix.mp hoccurs)

namespace Directive

/-- The number of values. -/
def width (d : Directive) : Nat := d.choices.toList.length

theorem width_pos (d : Directive) : 1 ≤ d.width := Nat.succ_le_succ (Nat.zero_le _)

theorem choices_rest_eq_nil_iff {d : Directive} : d.choices.rest = [] ↔ d.width = 1 := by
  rw [width, Pieces.toList, List.length_cons, Nat.add_eq_right, List.length_eq_zero_iff]

/-- No rule is refused exactly when there is one value, or there is room, or no key holds the
    token. -/
theorem find?_eq_none_iff {limit : Nat} {rules : List RawRule} {d : Directive} {token : Text} :
    (rules.find? fun r => (limit ≤ rules.length && !d.choices.rest.isEmpty) &&
        occursIn token r.key) = none ↔
      d.width = 1 ∨ rules.length < limit ∨ ∀ r ∈ rules, ¬ token <:+: r.key := by
  rw [List.find?_eq_none, ← choices_rest_eq_nil_iff, ← Nat.not_le, ← List.isEmpty_iff]
  simp only [← occursIn_iff_isInfix]
  by_cases hroom : limit ≤ rules.length <;> cases d.choices.rest.isEmpty <;> simp [hroom]

/-- A directive can be applied exactly when its token can be decoded, and it has one value, or
    there is room, or no key holds its token. -/
theorem apply_eq_ok_iff {limit : Nat} {rules out : List RawRule} {d : Directive} :
    d.apply limit rules = .ok out ↔
      ∃ token, decode d.token = some token ∧
        (d.width = 1 ∨ rules.length < limit ∨ ∀ r ∈ rules, ¬ token <:+: r.key) ∧
        out = rules.flatMap (RawRule.expand token d.choices) := by
  rw [apply, bind_eq_ok_iff]
  refine exists_congr fun token => ?_
  rw [decodeOrFault_eq_ok_iff]
  refine and_congr_right fun _ => ?_
  rw [← find?_eq_none_iff]
  dsimp only
  split
  · rename_i hfound
    simp [hfound]
  · rename_i hnone
    simp [hnone, eq_comm]

end Directive

/-! ## All directives -/

section

variable {limit : Nat} {rules out : List RawRule} {ds : List Directive}

theorem expandAll_nil_eq_ok_iff : expandAll limit rules [] = .ok out ↔ out = rules := by
  simp [expandAll, pure, Except.pure, eq_comm]

theorem expandAll_cons_eq_ok_iff {d : Directive} :
    expandAll limit rules (d :: ds) = .ok out ↔
      ∃ between, d.apply limit rules = .ok between ∧ expandAll limit between ds = .ok out := by
  rw [expandAll, List.foldlM_cons, bind_eq_ok_iff]
  rfl

/-- What every pass keeps is kept by all of them. -/
theorem expandAll_invariant {motive : List RawRule → Prop}
    (pass : ∀ d ∈ ds, ∀ rules out, motive rules → d.apply limit rules = .ok out → motive out)
    (start : motive rules) (h : expandAll limit rules ds = .ok out) : motive out := by
  induction ds generalizing rules with
  | nil => exact expandAll_nil_eq_ok_iff.mp h ▸ start
  | cons d ds ih =>
    obtain ⟨between, hd, hds⟩ := expandAll_cons_eq_ok_iff.mp h
    obtain ⟨hpass, hpasses⟩ := List.forall_mem_cons.mp pass
    exact ih hpasses (hpass rules between start hd) hds

end

end NormalAlgorithm
