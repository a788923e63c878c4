import NormalAlgorithm.Rule
import NormalAlgorithm.Proofs.Fallible
import NormalAlgorithm.Proofs.Pattern.Engine

/-!
# Applying a rule

A rule applies to a text when the text can be cut around a match of its key, and it then rewrites
the chosen match and nothing else. It does not matter whether the match is searched for or found by
an engine for regular expressions. Only the replacement can fail, and only for one cause.

Results:
* `apply_eq_some_iff`: a rule that applies rewrites the chosen match.
* `replacement_eq_error`: a replacement that cannot be written names a group.
* `apply_rewrites_chosen`: both answers of a compiled rule, in terms of the pieces of its raw key.
-/

namespace NormalAlgorithm

namespace Rule

/-- A text with something new in place of a match. -/
def splice (m : Match) (new : Text) : Text := m.before ++ new ++ m.after

/-! ## Where a rule applies -/

theorem apply_eq_none_iff_decomposes {r : Rule} {t : Text} :
    r.apply t = none ↔ ∀ m, ¬ r.pattern.Decomposes t m := by
  rw [apply_eq_none_iff, Pattern.find?_eq_none_iff]

theorem apply_eq_some_iff {r : Rule} {t : Text} {result : Except Fault Text} :
    r.apply t = some result ↔
      ∃ m, r.pattern.Chooses t m ∧ result = (r.replacement m.groups).map (splice m) := by
  rw [apply, Option.map_eq_some_iff]
  simp only [Pattern.find?_eq_some_iff]
  constructor
  · rintro ⟨m, hm, rfl⟩
    refine ⟨m, hm, ?_⟩
    cases r.replacement m.groups <;> rfl
  · rintro ⟨m, hm, rfl⟩
    refine ⟨m, hm, ?_⟩
    cases r.replacement m.groups <;> rfl

/-- Rewrites the match that an engine finds for the expression of the key. -/
def applyWith (engine : Engine) (r : Rule) (t : Text) : Option (Except Fault Text) :=
  (engine r.pattern.expression t).map fun m => do
    let new ← r.replacement m.groups
    return m.before ++ new ++ m.after

theorem applyWith_eq_apply {engine : Engine} (h : engine.LeftmostFirst) (r : Rule) (t : Text) :
    r.applyWith engine t = r.apply t := by
  rw [applyWith, h.eq_find?, apply]

/-! ## Replacements that cannot be written -/

theorem render_eq_error {kind : RuleKind} {group : Text} {f : Fault}
    (h : kind.render group = .error f) : f = .notACharacter group := by
  cases kind with
  | plain | final | codePoint => cases h
  | character =>
    rw [RuleKind.render] at h
    split at h
    · cases h
    · exact (Except.error.inj h).symm

theorem replacement_eq_error {r : Rule} {groups : List Text} {f : Fault}
    (h : r.replacement groups = .error f) : ∃ group, f = .notACharacter group := by
  rw [replacement] at h
  rcases bind_eq_error_iff.mp h with hparts | ⟨parts, -, hpure⟩
  · obtain ⟨⟨piece, i⟩, -, hpart⟩ := mapM_eq_error hparts
    rcases bind_eq_error_iff.mp hpart with hrender | ⟨group, -, hpure⟩
    · exact ⟨_, render_eq_error hrender⟩
    · cases hpure
  · cases hpure

end Rule

/-! ## Compiled rules -/

/-- **A compiled rule rewrites the chosen match of its key.** The key of the rule is the raw key,
    cut at bare percent signs and decoded piece by piece, with a slot of the rule's kind at each
    cut. The rule applies to no text that cannot be cut into a match of this key. To any other
    text it applies, and what it rewrites is the match that starts first and, of those that start
    there, takes the most in its slots, earlier slots first. The same holds with any engine that is
    given the expression of the key. -/
theorem apply_rewrites_chosen {engine : Engine} (hengine : engine.LeftmostFirst) {raw : RawRule}
    {rule : Rule} (h : raw.compile = .ok rule) (t : Text) :
    rule.applyWith engine t = rule.apply t ∧
      ∃ key, decodePieces raw.key = .ok key ∧
        (rule.apply t = none ↔ ¬ ∃ m, Pattern.Decomposes ⟨raw.kind.slot, key⟩ t m) ∧
        ∀ result, rule.apply t = some result →
          ∃ m, Pattern.Chooses ⟨raw.kind.slot, key⟩ t m ∧
            result = (rule.replacement m.groups).map fun new => m.before ++ new ++ m.after := by
  obtain ⟨hkind, hkey, -⟩ := RawRule.compile_eq_ok_iff.mp h
  have hpattern : rule.pattern = ⟨raw.kind.slot, rule.key⟩ := by rw [Rule.pattern, hkind]
  refine ⟨Rule.applyWith_eq_apply hengine rule t, rule.key, hkey, ?_, fun result hresult => ?_⟩
  · rw [Rule.apply_eq_none_iff_decomposes, hpattern, not_exists]
  · rw [Rule.apply_eq_some_iff, hpattern] at hresult
    exact hresult

/-- The slot of `chr %0=%` gives back the last digit of `660`, which the key needs. -/
theorem apply_rewrites_chosen_gives_back :
    Engine.backtracking.LeftmostFirst ∧
      RawRule.compile ⟨.character, "%0".toList, "<%>".toList⟩ =
        .ok ⟨.character, ⟨[], ["0".toList]⟩, ⟨"<".toList, [">".toList]⟩⟩ ∧
      Rule.applyWith Engine.backtracking
          ⟨.character, ⟨[], ["0".toList]⟩, ⟨"<".toList, [">".toList]⟩⟩ "x660y".toList =
        some (.ok "x<B>y".toList) ∧
      ∃ m, Pattern.Chooses ⟨.digits, ⟨[], ["0".toList]⟩⟩ "x660y".toList m ∧
        Except.ok "x<B>y".toList =
          (Rule.replacement ⟨.character, ⟨[], ["0".toList]⟩, ⟨"<".toList, [">".toList]⟩⟩
            m.groups).map fun new => m.before ++ new ++ m.after := by
  have hcompile : RawRule.compile ⟨.character, "%0".toList, "<%>".toList⟩ =
      .ok ⟨.character, ⟨[], ["0".toList]⟩, ⟨"<".toList, [">".toList]⟩⟩ := rfl
  obtain ⟨hwith, key, hkey, -, hchosen⟩ :=
    apply_rewrites_chosen Engine.backtracking_leftmostFirst hcompile "x660y".toList
  have hpieces : decodePieces "%0".toList = .ok ⟨[], ["0".toList]⟩ := rfl
  obtain rfl : key = ⟨[], ["0".toList]⟩ := Except.ok.inj (hkey.symm.trans hpieces)
  exact ⟨Engine.backtracking_leftmostFirst, hcompile, hwith, hchosen (.ok "x<B>y".toList) rfl⟩

end NormalAlgorithm
