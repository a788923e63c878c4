import NormalAlgorithm.Proofs.Expansion.Pass
import NormalAlgorithm.Proofs.Source.Contents
import NormalAlgorithm.Proofs.Statement.Grammar

/-!
# Refused expansions

A pass over the rules can fail in two ways: the token of the directive cannot be decoded, or the
directive would make several rules out of one while there are as many as the limit already. The
first way is open to directives that are made up, but not to those that are read: the token stands
before an equals sign that is bare, so that no backslash at the end of the token is left unpaired.

Results:
* `Directive.apply_eq_error_iff`: exactly when a pass fails, and with which fault.
* `sealed_token_of_mem`: the tokens in the text of a program.
* `expandAll_of_read`: the directives of a source that was read can be applied, or one of them is
  refused because there are too many rules.
-/

namespace NormalAlgorithm

/-! ## One pass -/

namespace Directive

/-- A pass over the rules is given up at this one. -/
structure RefusedAt (limit : Nat) (rules : List RawRule) (d : Directive) (r : RawRule) : Prop where
  /-- The rule is the first whose key holds the token. -/
  first : ∃ token before after, decode d.token = some token ∧ rules = before ++ r :: after ∧
    token <:+: r.key ∧ ∀ r' ∈ before, ¬ token <:+: r'.key
  /-- There are at least as many rules as the limit. -/
  full : limit ≤ rules.length
  /-- The directive has more than one value. -/
  several : 1 < d.width

section

variable {limit : Nat} {rules : List RawRule} {d : Directive}

theorem find?_eq_some_iff {token : Text} {r : RawRule} :
    (rules.find? fun r => (limit ≤ rules.length && !d.choices.rest.isEmpty) &&
        occursIn token r.key) = some r ↔
      limit ≤ rules.length ∧ 1 < d.width ∧ token <:+: r.key ∧
        ∃ before after, rules = before ++ r :: after ∧ ∀ r' ∈ before, ¬ token <:+: r'.key := by
  have hseveral : d.choices.rest.isEmpty = false ↔ 1 < d.width := by
    rw [← Bool.not_eq_true, List.isEmpty_iff, choices_rest_eq_nil_iff]
    have hpos := d.width_pos
    omega
  rw [List.find?_eq_some_iff_append, ← hseveral]
  simp only [Bool.and_eq_true, decide_eq_true_eq, Bool.not_eq_true', occursIn_iff_isInfix,
    and_assoc]
  refine and_congr_right fun hfull => and_congr_right fun hrest => and_congr_right fun _ => ?_
  simp [hfull, hrest, ← occursIn_iff_isInfix]

theorem apply_eq_error_iff {f : Fault} :
    d.apply limit rules = .error f ↔
      decode d.token = none ∧ f = .danglingBackslash ∨
        ∃ r, d.RefusedAt limit rules r ∧ f = .tooManyClones r.text := by
  rw [apply, bind_eq_error_iff, decodeOrFault_eq_error_iff]
  refine or_congr_right ?_
  simp only [decodeOrFault_eq_ok_iff]
  constructor
  · rintro ⟨token, htoken, hpass⟩
    split at hpass
    · rename_i r hfound
      obtain ⟨hfull, hseveral, hholds, before, after, hrules, hbefore⟩ :=
        find?_eq_some_iff.mp hfound
      cases hpass
      exact ⟨r, ⟨⟨token, before, after, htoken, hrules, hholds, hbefore⟩, hfull, hseveral⟩, rfl⟩
    · cases hpass
  · rintro ⟨r, ⟨⟨token, before, after, htoken, hrules, hholds, hbefore⟩, hfull, hseveral⟩, rfl⟩
    have hfound := find?_eq_some_iff.mpr ⟨hfull, hseveral, hholds, before, after, hrules, hbefore⟩
    exact ⟨token, htoken, by simp only [hfound]⟩

end

end Directive

/-! ## All passes -/

theorem expandAll_eq_error_iff {limit : Nat} {rules : List RawRule} {ds : List Directive}
    {f : Fault} :
    expandAll limit rules ds = .error f ↔ ∃ earlier d later between,
      ds = earlier ++ d :: later ∧ expandAll limit rules earlier = .ok between ∧
        d.apply limit between = .error f :=
  foldlM_eq_error_iff

/-! ## Directives that are read -/

/-- The tokens in the text of a program stand before an equals sign. -/
theorem sealed_token_of_mem {t : Text} {d : Directive} (h : d ∈ directivesIn t) :
    Sealed (· = '=') d.token := by
  obtain ⟨st, hst, hd⟩ := List.mem_filterMap.mp h
  obtain ⟨piece, -, rfl⟩ := List.mem_map.mp hst
  cases hread : Statement.read piece with
  | directive d' =>
    rw [hread] at hd
    cases hd
    exact Statement.sealed_token hread
  | initial raw | rule r | unknown word | comment =>
    rw [hread] at hd
    cases hd

/-- **The directives of a source never fail because of their tokens.** In a source that was read,
    no token ends in an odd number of backslashes, and every token can be decoded. Therefore either
    all directives can be applied to the rules, one after the other, or a pass is given up. The
    rules from which this pass starts, which are those that the directives before it have made, are
    then as many as the limit or more, the directive has more than one value, and the fault names
    the first rule whose key holds the token, with an equals sign between key and value. -/
theorem expandAll_of_read {limits : Limits} {t : Text} {s : Source}
    (h : Source.read limits t = .ok s) :
    (∀ d ∈ s.directives, ¬ Odd (trailingBackslashes d.token) ∧
      ∃ token, decode d.token = some token) ∧
    ((∃ out, expandAll limits.rules s.rules s.directives = .ok out) ∨
      ∃ earlier d later rules r, s.directives = earlier ++ d :: later ∧
        expandAll limits.rules s.rules earlier = .ok rules ∧ d.RefusedAt limits.rules rules r ∧
        expandAll limits.rules s.rules s.directives =
          .error (.tooManyClones (r.key ++ ['='] ++ r.value))) := by
  have hcomplete : ∀ d ∈ s.directives, .dangling ∉ glyphs d.token := by
    rw [(Source.contents_of_read h).2.1]
    exact fun d hd => (sealed_token_of_mem hd).complete
  refine ⟨fun d hd => ⟨mt dangling_mem_glyphs_iff.mpr (hcomplete d hd),
    exists_decode_iff.mpr (hcomplete d hd)⟩, ?_⟩
  cases hexpand : expandAll limits.rules s.rules s.directives with
  | ok out => exact .inl ⟨out, rfl⟩
  | error f =>
    obtain ⟨earlier, d, later, rules, hds, hearlier, hpass⟩ := expandAll_eq_error_iff.mp hexpand
    rcases Directive.apply_eq_error_iff.mp hpass with ⟨hnone, -⟩ | ⟨r, hrefused, rfl⟩
    · have hd : d ∈ s.directives := hds ▸ List.mem_append_right earlier List.mem_cons_self
      exact absurd (decode_eq_none_iff.mp hnone) (hcomplete d hd)
    · exact .inr ⟨earlier, d, later, rules, r, hds, hearlier, hrefused, rfl⟩

/-- With room for two rules, the first directive makes three rules out of one, and the second is
    refused at the first of them. The tokens end in a protected equals sign and in two
    backslashes. -/
theorem expandAll_of_read_second :
    ∃ s, Source.read { rules := 2 } "rep \\==a,b,c\nfor Y\\\\=1,2\n\\=Y\\\\=z".toList = .ok s ∧
      (∀ d ∈ s.directives, ¬ Odd (trailingBackslashes d.token)) ∧
      expandAll 2 s.rules s.directives = .error (.tooManyClones "\\aY\\\\=z".toList) ∧
      ∃ earlier d later rules r, s.directives = earlier ++ d :: later ∧
        expandAll 2 s.rules earlier = .ok rules ∧ d.RefusedAt 2 rules r ∧
        expandAll 2 s.rules s.directives = .error (.tooManyClones (r.key ++ ['='] ++ r.value)) := by
  have hread :
      Source.read { rules := 2 } "rep \\==a,b,c\nfor Y\\\\=1,2\n\\=Y\\\\=z".toList =
        .ok ⟨none, [⟨.plain, "\\=Y\\\\".toList, "z".toList⟩],
          [⟨"\\=".toList, "a,b,c".toList⟩, ⟨"Y\\\\".toList, "1,2".toList⟩]⟩ := rfl
  have hexpand : expandAll 2 [⟨.plain, "\\=Y\\\\".toList, "z".toList⟩]
      [⟨"\\=".toList, "a,b,c".toList⟩, ⟨"Y\\\\".toList, "1,2".toList⟩] =
      .error (.tooManyClones "\\aY\\\\=z".toList) := rfl
  obtain ⟨htokens, ⟨out, hout⟩ | hrefused⟩ := expandAll_of_read hread
  · cases hexpand.symm.trans hout
  · exact ⟨_, hread, fun d hd => (htokens d hd).1, hexpand, hrefused⟩

end NormalAlgorithm
