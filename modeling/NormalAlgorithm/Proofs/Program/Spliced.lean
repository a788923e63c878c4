import NormalAlgorithm.Proofs.Expansion.EncodedKey
import NormalAlgorithm.Proofs.Program.Resumed
import NormalAlgorithm.Proofs.Source.Contents

/-!
# Spliced lists

A program can be handed a list of texts: a directive lists them, encoded, and a rule that consists
of the token alone is cloned for each of them. A text is cut out of the program, out of the
directive and out of the clone, takes the place of the token in between, and is decoded at last. It
comes out as it was put in, whatever it holds. A text that holds the token is not substituted again,
for one pass goes over the rule and not over what it puts there. A text that starts like a keyword
is no keyword, for words in front of keys are looked at before directives are applied.

Results:
* `statements_spliced`: the program is cut into its three statements.
* `choices_listing`: the directive is cut into the encoded texts.
* `substitute_tokenRule`, `apply_listing`: the clones are the raw forms of the texts.
* `compile_spliced`: the program has one plain rule for each text.
-/

namespace NormalAlgorithm

/-! ## The program -/

/-- The directive that lists texts to be put in place of the token. -/
def listing (values : Pieces) : Directive := ⟨['X'], (values.map encode).joinWith [',']⟩

/-- The rule that consists of the token, and is cloned for each text. -/
def tokenRule : RawRule := ⟨.plain, ['X'], ['X']⟩

/-- The program with this initial text, the listing, and the rule that is to be cloned. -/
def spliced (initial : Text) (values : Pieces) : Text :=
  "str ".toList ++ encode initial ++ ";rep X=".toList ++ (listing values).values ++ ";X=X".toList

section

variable (initial : Text) (values : Pieces)

theorem statements_listing :
    statements ("rep X=".toList ++ (listing values).values ++ ";X=X".toList) =
      [.directive (listing values), .rule tokenRule] := by
  have hvalues : Sealed endsStatement (listing values).values :=
    sealed_joinWith (.cons (by decide) rfl .nil)
      (sealed_map_encode (fun _ => isSpecial_of_endsStatement) values)
  have hsealed : Sealed endsStatement ("rep X=".toList ++ (listing values).values) :=
    .append (by decide) hvalues
  have hbare : Bare ['X'] := by decide
  have hread : Statement.read ("rep X=".toList ++ (listing values).values) =
      .directive (listing values) := read_rep hbare (listing values).values
  have hrule : statements "X=X".toList = [.rule tokenRule] := rfl
  have hsplit : statements ("rep X=".toList ++ (listing values).values ++ ';' :: "X=X".toList) =
      .directive (listing values) :: statements "X=X".toList := by
    rw [statements, split_of_sealed hsealed rfl (by decide), Pieces.toList, List.map_cons, hread,
      ← statements]
  rwa [hrule] at hsplit

theorem statements_spliced :
    statements (spliced initial values) =
      [.initial (encode initial), .directive (listing values), .rule tokenRule] := by
  have hinitial : spliced initial values =
      withInitial initial ("rep X=".toList ++ (listing values).values ++ ";X=X".toList) := by
    unfold spliced withInitial
    rw [List.append_assoc _ ";rep X=".toList, List.append_assoc]
    rfl
  rw [hinitial, statements_withInitial, statements_listing]

/-! ## The clones -/

theorem choices_listing : (listing values).choices = values.map encode :=
  split_joinWith (by decide) (by decide) (sealed_map_encode (isSpecial_of_eq rfl) values)

/-- The encoded text takes the place of the token, and is the raw form of the text. -/
theorem substitute_tokenRule (v : Text) :
    tokenRule.substitute ['X'] (encode v) = (Rule.mk .plain ⟨v, []⟩ ⟨v, []⟩).raw := by
  have hreplace : replaceAll ['X'] (encode v) ['X'] = encode v := by
    simpa using replaceAll_of_starts 'X' [] (encode v) []
  simp [RawRule.substitute, tokenRule, hreplace, Rule.raw, encodePieces, Pieces.joinWith,
    Pieces.map]

theorem apply_listing {limit : Nat} (hlimit : 2 ≤ limit) :
    (listing values).apply limit [tokenRule] =
      .ok ((values.toList.map fun v => ⟨.plain, ⟨v, []⟩, ⟨v, []⟩⟩).map Rule.raw) := by
  have hbare : Bare ['X'] := by decide
  have htoken : decode (listing values).token = some ['X'] := decode_of_bare hbare
  refine Directive.apply_eq_ok_iff.mpr ⟨['X'], htoken, .inr (.inl hlimit), ?_⟩
  have hholds : ['X'] <:+: tokenRule.key := List.infix_rfl
  rw [List.flatMap_singleton, RawRule.expand_of_isInfix hholds, choices_listing]
  simp [substitute_tokenRule, Function.comp_def]

end

/-! ## Main result -/

/-- **Spliced lists are read back unchanged.** For every initial text and every list of texts, of
    which there is at least one, the program that lists the encoded texts in a directive, and has
    the token as its only rule, can be compiled if there may be two rules and a directive and the
    initial text is not too long. The program starts from the initial text, and its rules are the
    plain ones that rewrite each text to itself, in the order of the list. -/
theorem compile_spliced {limits : Limits} {initial : Text} (hrules : 2 ≤ limits.rules)
    (hdirectives : 1 ≤ limits.directives) (hunits : units initial ≤ limits.units)
    (values : Pieces) :
    ∃ p, Program.compile limits (spliced initial values) = .ok p ∧ p.initial = initial ∧
      p.rules = values.toList.map fun v => ⟨.plain, ⟨v, []⟩, ⟨v, []⟩⟩ := by
  have hcollects : Source.Collects limits (statements (spliced initial values))
      ⟨some initial, [tokenRule], [listing values]⟩ := by
    rw [statements_spliced]
    exact ⟨by simp, .once (decode_encode initial), ⟨rfl, Nat.le_of_succ_le hrules⟩,
      ⟨rfl, hdirectives⟩⟩
  have hread := Source.read_eq_ok.mpr ⟨Source.addAll_eq_ok_iff.mpr hcollects, hunits⟩
  have hexpand : expandAll limits.rules [tokenRule] [listing values] =
      .ok ((values.toList.map fun v => ⟨.plain, ⟨v, []⟩, ⟨v, []⟩⟩).map Rule.raw) :=
    expandAll_cons_eq_ok_iff.mpr ⟨_, apply_listing values hrules, expandAll_nil_eq_ok_iff.mpr rfl⟩
  have hcompile := mapM_map_eq_ok compile_raw
    (values.toList.map fun v => ⟨.plain, ⟨v, []⟩, ⟨v, []⟩⟩)
  exact ⟨_, Program.compile_eq_ok.mpr ⟨_, _, _, hread, hexpand, hcompile, rfl⟩, rfl, rfl⟩

/-- The narrowest limits for texts that hold the token, separators, line feeds and backslashes, or
    start like keywords. -/
theorem compile_spliced_special :
    ∃ p, Program.compile { rules := 2, directives := 1, units := 3 }
        (spliced "X;\\".toList ⟨"aXX".toList, [",;\n".toList, "%=\\".toList, "fin X".toList,
          "str a".toList, []]⟩) = .ok p ∧
      p.initial = "X;\\".toList ∧
      p.rules = [⟨.plain, ⟨"aXX".toList, []⟩, ⟨"aXX".toList, []⟩⟩,
        ⟨.plain, ⟨",;\n".toList, []⟩, ⟨",;\n".toList, []⟩⟩,
        ⟨.plain, ⟨"%=\\".toList, []⟩, ⟨"%=\\".toList, []⟩⟩,
        ⟨.plain, ⟨"fin X".toList, []⟩, ⟨"fin X".toList, []⟩⟩,
        ⟨.plain, ⟨"str a".toList, []⟩, ⟨"str a".toList, []⟩⟩,
        ⟨.plain, ⟨[], []⟩, ⟨[], []⟩⟩] :=
  compile_spliced (by decide) (by decide) (by decide) _

end NormalAlgorithm
