import NormalAlgorithm.Proofs.Escape.Substitution
import NormalAlgorithm.Proofs.Expansion.Pass

/-!
# Directives and encoded keys

A directive looks for its token in the raw key of a rule and puts raw values in its place. When the
key is an encoded text and no character of the token needs an escape, the directive could as well
have worked on the text itself.

Results:
* `read_rep`: a directive as it is written, with a token that needs no escape.
* `apply_append_cons`: what a directive makes out of one rule of a list.
* `expand_encoded_key`: a directive clones a rule with an encoded key exactly when the text holds
  the token, and the keys of the clones stand for the text with the values put in.
-/

namespace NormalAlgorithm

/-! ## The directive -/

/-- A directive whose token needs no escape is read as it is written. -/
theorem read_rep {token : Text} (h : Bare token) (values : Text) :
    Statement.read ("rep ".toList ++ token ++ '=' :: values) = .directive ⟨token, values⟩ := by
  have hsealed : Sealed (· = '=') token := by
    simpa only [encode_of_bare h] using sealed_encode (isSpecial_of_eq rfl) token
  exact read_word (a := 'r') (b := 'e') (c := 'p') rfl rfl rfl (by decide) hsealed values

/-- What a directive makes out of a list of rules, one of which is looked at. -/
theorem Directive.apply_append_cons {limit : Nat} {before after out : List RawRule} {r : RawRule}
    {d : Directive} {token : Text} (htoken : decode d.token = some token) :
    d.apply limit (before ++ r :: after) = .ok out ↔
      (d.width = 1 ∨ (before ++ r :: after).length < limit ∨
        ∀ x ∈ before ++ r :: after, ¬ token <:+: x.key) ∧
      out = before.flatMap (RawRule.expand token d.choices) ++ r.expand token d.choices ++
        after.flatMap (RawRule.expand token d.choices) := by
  rw [apply_eq_ok_iff, List.append_assoc, ← List.flatMap_cons, ← List.flatMap_append]
  constructor
  · rintro ⟨token', htoken', hmade⟩
    obtain rfl : token' = token := Option.some.inj (htoken'.symm.trans htoken)
    exact hmade
  · exact fun hmade => ⟨token, htoken, hmade⟩

/-! ## The key -/

/-- **Expansion works on encoded keys as on texts.** Let no character of a non-empty token need an
    escape, and let the token not start with the letter `n` if the text holds a line feed. Then the
    token stands in the encoded text exactly when it stands in the text, and the encoded text with
    an encoded value in place of the token stands for the text with the value in place of the
    token.

    So a directive with this token makes, out of a rule with the encoded text as its key, one rule
    for each of its values if the text holds the token, and the key of each stands for the text
    with what the value stands for put in. If the text does not hold the token, the rule keeps its
    key and is not cloned. The directive can be applied to the rules among which it stands exactly
    when it has one value, or there is room, or no key holds the token. -/
theorem expand_encoded_key {token k : Text} (hne : token ≠ []) (hbare : Bare token)
    (hline : '\n' ∈ k → token.head? ≠ some 'n') :
    (token <:+: encode k ↔ token <:+: k) ∧
      (∀ v, decode (replaceAll token (encode v) (encode k)) = some (replaceAll token v k)) ∧
      ∀ d : Directive, d.token = token →
        Statement.read ("rep ".toList ++ token ++ '=' :: d.values) = .directive d ∧
        ∀ limit rules before after kind value, rules = before ++ ⟨kind, encode k, value⟩ :: after →
          ∃ made,
            (∀ out, d.apply limit rules = .ok out ↔
              (d.width = 1 ∨ rules.length < limit ∨ ∀ r ∈ rules, ¬ token <:+: r.key) ∧
              out = before.flatMap (RawRule.expand token d.choices) ++ made ++
                after.flatMap (RawRule.expand token d.choices)) ∧
            (token <:+: k →
              made = d.choices.toList.map
                (fun w => ⟨kind, replaceAll token w (encode k), replaceAll token w value⟩) ∧
              ∀ w ∈ d.choices.toList, ∀ u, decode w = some u →
                decode (replaceAll token w (encode k)) = some (replaceAll token u k)) ∧
            (¬ token <:+: k →
              made = [⟨kind, encode k, replaceAll token d.choices.first value⟩]) := by
  obtain ⟨n, ns, rfl⟩ := List.exists_cons_of_ne_nil hne
  have hletter : '\n' ∈ k → n ≠ 'n' := fun hmem heq => hline hmem (heq ▸ rfl)
  have hstands : n :: ns <:+: encode k ↔ n :: ns <:+: k := isInfix_encode_iff hbare hletter
  refine ⟨hstands, fun v => decode_replaceAll_encode hbare hletter (decode_encode v), ?_⟩
  rintro ⟨token, values⟩ rfl
  refine ⟨read_rep hbare values, ?_⟩
  rintro limit rules before after kind value rfl
  refine ⟨RawRule.expand (n :: ns) _ ⟨kind, encode k, value⟩,
    fun out => Directive.apply_append_cons (decode_of_bare hbare), fun hholds => ?_,
    fun hlacks => RawRule.expand_of_not_isInfix (mt hstands.mp hlacks)⟩
  exact ⟨RawRule.expand_of_isInfix (hstands.mpr hholds),
    fun w _ u hu => decode_replaceAll_encode hbare hletter hu⟩

/-- A token that overlaps itself, in a key with a semicolon and a line feed, and a value with a line
    feed. -/
theorem expand_encoded_key_overlapping :
    Statement.read "rep aa=x,\\n".toList = .directive ⟨"aa".toList, "x,\\n".toList⟩ ∧
      ∃ first second,
        Directive.apply 10 [⟨.final, encode "aaa;\n".toList, "aa".toList⟩]
            ⟨"aa".toList, "x,\\n".toList⟩ = .ok [first, second] ∧
          decode first.key = some "xa;\n".toList ∧ decode second.key = some "\na;\n".toList := by
  obtain ⟨-, -, hdirective⟩ := @expand_encoded_key "aa".toList "aaa;\n".toList
    (by decide) (by decide) (by decide)
  obtain ⟨hread, happly⟩ := hdirective ⟨"aa".toList, "x,\\n".toList⟩ rfl
  obtain ⟨made, hout, hclones, -⟩ := happly 10 _ [] [] .final "aa".toList rfl
  obtain ⟨rfl, hkeys⟩ := hclones ⟨[], "a;\n".toList, rfl⟩
  exact ⟨hread, _, _, (hout _).mpr ⟨.inr (.inl (by decide)), rfl⟩,
    hkeys "x".toList (by decide) _ rfl, hkeys "\\n".toList (by decide) _ rfl⟩

end NormalAlgorithm
