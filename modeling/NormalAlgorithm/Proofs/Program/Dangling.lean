import NormalAlgorithm.Proofs.Expansion.Pass
import NormalAlgorithm.Proofs.Program.Refused
import NormalAlgorithm.Proofs.Source.FirstOffence

/-!
# The backslash that dangles

The text of a program is cut at the ends of statements, behind words, at equals signs and at percent
signs, and only then decoded. No cut takes from a backslash the character that it protects. So only
one backslash can dangle, the last character of the whole text, and it refuses the program if the
raw text in which it stands is decoded: a comment may end in it.

Results:
* `Statement.complete_of_complete`, `Statement.complete_of_mem_dropLast`,
  `Statement.exists_dangling`: of the raw texts of a statement, only the last can end in a dangling
  backslash, and it does if the statement does.
* `Program.compileWith_eq_ok_of_nil`, `Program.compileWith_eq_error_of_nil`: what is decoded in a
  program without directives.
* `Program.compile_dangling_iff`: which programs are refused for a dangling backslash.
-/

namespace NormalAlgorithm

/-! ## What is decoded -/

/-- The raw texts that a statement gives to be decoded, from left to right. -/
def Statement.rawTexts : Statement → List Text
  | .initial raw => [raw]
  | .rule r => r.rawTexts
  | .directive d => [d.token]
  | .unknown _ | .comment => []

namespace RawRule

variable {r : RawRule}

theorem decodes_of_compileWith {build : Builder} {rule : Rule}
    (h : r.compileWith build = .ok rule) : ∀ raw ∈ r.rawTexts, ∃ u, decode raw = some u := by
  intro raw hraw
  obtain ⟨compiled, hcompile, -⟩ := bind_eq_ok_iff.mp h
  refine Option.ne_none_iff_exists'.mp fun hnone => ?_
  have herror := compile_eq_error_iff.mpr ⟨⟨raw, hraw, hnone⟩, rfl⟩
  cases hcompile.symm.trans herror

/-- A rule of which no matcher can be made is refused with another fault. -/
theorem exists_of_compileWith {build : Builder}
    (h : r.compileWith build = .error .danglingBackslash) :
    ∃ raw ∈ r.rawTexts, decode raw = none := by
  rcases bind_eq_error_iff.mp h with hcompile | ⟨rule, -, hbuild⟩
  · exact (compile_eq_error_iff.mp hcompile).1
  · split at hbuild <;> cases hbuild

end RawRule

/-! ## Where a backslash can dangle -/

section

variable {isSeparator : Char → Bool} {t raw : Text}

theorem complete_of_mem_split (h : .dangling ∉ glyphs t)
    (hraw : raw ∈ (split isSeparator t).toList) : .dangling ∉ glyphs raw := by
  obtain ⟨before, last, hcut⟩ := exists_cutInto isSeparator t
  rw [hcut.toList_split, List.mem_append, List.mem_singleton] at hraw
  rcases hraw with hbefore | rfl
  · exact (hcut.sealed_of_mem raw hbefore).complete
  · exact mt hcut.dangling_iff.mpr h

theorem complete_of_mem_dropLast_split (hraw : raw ∈ (split isSeparator t).toList.dropLast) :
    .dangling ∉ glyphs raw := by
  obtain ⟨before, last, hcut⟩ := exists_cutInto isSeparator t
  rw [hcut.toList_split, List.dropLast_concat] at hraw
  exact (hcut.sealed_of_mem raw hraw).complete

theorem dangling_iff_of_getLast?_split (hraw : (split isSeparator t).toList.getLast? = some raw) :
    .dangling ∈ glyphs t ↔ .dangling ∈ glyphs raw := by
  obtain ⟨before, last, hcut⟩ := exists_cutInto isSeparator t
  rw [hcut.toList_split, List.getLast?_concat] at hraw
  obtain rfl := Option.some.inj hraw
  exact hcut.dangling_iff

end

namespace Statement

variable {s raw : Text}

theorem dangling_iff_of_initial (h : read s = .initial raw) :
    .dangling ∈ glyphs s ↔ .dangling ∈ glyphs raw := by
  cases read_eq_iff.mp h
  exact dangling_behind_iff (s := "str".toList) (by decide) (by decide)

/-- The key of a rule stands before an equals sign, and its value is the end of the statement. -/
theorem dangling_iff_of_rule {r : RawRule} (h : read s = .rule r) :
    .dangling ∉ glyphs r.key ∧ (.dangling ∈ glyphs s ↔ .dangling ∈ glyphs r.value) := by
  cases read_eq_iff.mp h with
  | plain noWord closed => exact ⟨closed.complete, dangling_behind_iff closed.complete (by decide)⟩
  | @keyword kind word key value announces closed =>
    have hword : .dangling ∉ glyphs word := by
      cases kind <;> cases announces <;> decide
    have hkey : .dangling ∉ glyphs (word ++ ' ' :: key) :=
      mt (dangling_behind_iff hword (by decide)).mp closed.complete
    exact ⟨closed.complete, dangling_behind_iff hkey (by decide)⟩

/-- In a statement without a dangling backslash, none dangles in the raw texts. -/
theorem complete_of_complete (hs : .dangling ∉ glyphs s) (hraw : raw ∈ (read s).rawTexts) :
    .dangling ∉ glyphs raw := by
  cases h : read s with
  | initial raw' =>
    rw [h] at hraw
    obtain rfl := List.mem_singleton.mp hraw
    exact mt (dangling_iff_of_initial h).mpr hs
  | rule r =>
    rw [h] at hraw
    obtain ⟨hkey, hvalue⟩ := dangling_iff_of_rule h
    rcases List.mem_append.mp hraw with hmem | hmem
    · exact complete_of_mem_split hkey hmem
    · exact complete_of_mem_split (mt hvalue.mpr hs) hmem
  | directive d =>
    rw [h] at hraw
    obtain rfl := List.mem_singleton.mp hraw
    exact (sealed_token h).complete
  | unknown word | comment =>
    rw [h] at hraw
    cases hraw

/-- In any statement, no backslash dangles in a raw text before the last. -/
theorem complete_of_mem_dropLast (hraw : raw ∈ (read s).rawTexts.dropLast) :
    .dangling ∉ glyphs raw := by
  cases h : read s with
  | initial raw' | directive d | unknown word | comment =>
    rw [h] at hraw
    cases hraw
  | rule r =>
    have hne : (split (· = '%') r.value).toList ≠ [] := List.cons_ne_nil _ _
    rw [h, rawTexts, RawRule.rawTexts, List.dropLast_append_of_ne_nil hne, List.mem_append] at hraw
    rcases hraw with hmem | hmem
    · exact complete_of_mem_split (dangling_iff_of_rule h).1 hmem
    · exact complete_of_mem_dropLast_split hmem

/-- The last raw text of an initial text or of a rule is the end of the statement. -/
theorem exists_dangling (hs : .dangling ∈ glyphs s)
    (h : (∃ raw, read s = .initial raw) ∨ ∃ r, read s = .rule r) :
    ∃ raw ∈ (read s).rawTexts, .dangling ∈ glyphs raw := by
  rcases h with ⟨raw, h⟩ | ⟨r, h⟩
  · rw [h]
    exact ⟨raw, List.mem_singleton_self raw, (dangling_iff_of_initial h).mp hs⟩
  · have hne : (split (· = '%') r.value).toList ≠ [] := List.cons_ne_nil _ _
    rw [h]
    refine ⟨_, List.mem_append_right _ (List.getLast_mem hne), ?_⟩
    rw [← dangling_iff_of_getLast?_split (List.getLast?_eq_some_getLast hne)]
    exact (dangling_iff_of_rule h).2.mp hs

/-- Comments are told from other statements by how they begin and by their equals signs. -/
theorem read_ne_comment_iff : read s ≠ .comment ↔ "str ".toList <+: s ∨ .bare '=' ∈ glyphs s := by
  have hstrip : stripStart? "str ".toList s ≠ none ↔ "str ".toList <+: s := by
    rw [Option.ne_none_iff_exists']
    exact exists_congr fun raw => stripStart?_eq_some_iff.trans eq_comm
  rw [Ne, read_comment_iff, not_and_or, not_not, ← Ne, hstrip]

end Statement

/-! ## Programs -/

namespace Program

variable {build : Builder} {limits : Limits} {t : Text}

theorem compileWith_eq_ok_of_nil {p : Program} (hds : directivesIn t = [])
    (h : compileWith build limits t = .ok p) :
    ∀ st ∈ statements t, (∀ word, st ≠ .unknown word) ∧
      ∀ raw ∈ st.rawTexts, ∃ u, decode raw = some u := by
  obtain ⟨s, hread, hrest⟩ := bind_eq_ok_iff.mp h
  obtain ⟨rules, hexpand, hrest⟩ := bind_eq_ok_iff.mp hrest
  obtain ⟨compiled, hcompile, -⟩ := bind_eq_ok_iff.mp hrest
  obtain ⟨hsrules, hsdirectives, -⟩ := Source.contents_of_read hread
  obtain ⟨hadmissible, -, -⟩ := Source.read_eq_ok_iff.mp hread
  rw [hsdirectives, hds, expandAll_nil_eq_ok_iff, hsrules] at hexpand
  subst hexpand
  intro st hst
  refine ⟨fun word heq => hadmissible.known word (heq ▸ hst), fun raw hraw => ?_⟩
  cases st with
  | initial raw' =>
    obtain rfl := List.mem_singleton.mp hraw
    exact hadmissible.decodable raw (List.mem_filterMap.mpr ⟨_, hst, rfl⟩)
  | rule r =>
    have hr : r ∈ rulesIn t := List.mem_filterMap.mpr ⟨_, hst, rfl⟩
    obtain ⟨rule, hrule⟩ := exists_eq_ok_of_mapM hcompile hr
    exact RawRule.decodes_of_compileWith hrule raw hraw
  | directive d =>
    have hd : d ∈ directivesIn t := List.mem_filterMap.mpr ⟨_, hst, rfl⟩
    rw [hds] at hd
    cases hd
  | unknown word | comment => cases hraw

theorem compileWith_eq_error_of_nil (hds : directivesIn t = [])
    (h : compileWith build limits t = .error .danglingBackslash) :
    ∃ st ∈ statements t, ∃ raw ∈ st.rawTexts, decode raw = none := by
  rcases bind_eq_error_iff.mp h with hread | ⟨s, hread, hrest⟩
  · rcases Source.read_eq_error_iff.mp hread with ⟨before, st, after, hsts, -, hoffends⟩ |
      ⟨-, -, hlong⟩
    · cases hoffends with
      | @danglingBackslash raw notGiven meaningless =>
        refine ⟨.initial raw, ?_, raw, List.mem_singleton_self raw, meaningless⟩
        rw [hsts]
        exact List.mem_append_right before List.mem_cons_self
    · cases hlong
  obtain ⟨hsrules, hsdirectives, -⟩ := Source.contents_of_read hread
  rw [hsdirectives, hds] at hrest
  rcases bind_eq_error_iff.mp hrest with hexpand | ⟨rules, hexpand, hrest⟩
  · cases hexpand
  rw [expandAll_nil_eq_ok_iff, hsrules] at hexpand
  subst hexpand
  rcases bind_eq_error_iff.mp hrest with hcompile | ⟨compiled, -, hpure⟩
  · obtain ⟨r, hr, herror⟩ := mapM_eq_error hcompile
    obtain ⟨st, hst, hrule⟩ := List.mem_filterMap.mp hr
    cases st with
    | rule r' =>
      cases hrule
      exact ⟨.rule r, hst, RawRule.exists_of_compileWith herror⟩
    | initial raw | directive d | unknown word | comment => cases hrule
  · cases hpure

/-- For the program, what counts is the last statement. -/
theorem compileWith_dangling_iff {before : List Text} {last : Text}
    (hcut : CutInto endsStatement t before last) (hds : directivesIn t = [])
    (hends : (∃ p, compileWith build limits t = .ok p) ∨
      compileWith build limits t = .error .danglingBackslash) :
    compileWith build limits t = .error .danglingBackslash ↔
      .dangling ∈ glyphs last ∧ Statement.read last ≠ .comment := by
  have hstatements : statements t = (before ++ [last]).map Statement.read := by
    rw [statements, hcut.toList_split]
  constructor
  · intro herror
    obtain ⟨st, hst, raw, hraw, hnone⟩ := compileWith_eq_error_of_nil hds herror
    rw [hstatements, List.mem_map] at hst
    obtain ⟨s, hs, rfl⟩ := hst
    -- The backslash dangles at the end of its statement, and this can only be the last.
    have hdangling : .dangling ∈ glyphs s := by
      by_contra hcomplete
      exact Statement.complete_of_complete hcomplete hraw (decode_eq_none_iff.mp hnone)
    rcases List.mem_append.mp hs with hs | hs
    · exact absurd hdangling (hcut.sealed_of_mem s hs).complete
    · obtain rfl := List.mem_singleton.mp hs
      refine ⟨hdangling, fun hcomment => ?_⟩
      rw [hcomment] at hraw
      cases hraw
  · rintro ⟨hdangling, hcomment⟩
    refine hends.resolve_left ?_
    rintro ⟨p, hok⟩
    have hlast : Statement.read last ∈ statements t := by
      rw [hstatements, List.map_append]
      exact List.mem_append_right _ List.mem_cons_self
    obtain ⟨hknown, hdecodes⟩ := compileWith_eq_ok_of_nil hds hok _ hlast
    -- A program that is compiled has no unknown keyword, so the last statement adds raw text.
    have hadds : (∃ raw, Statement.read last = .initial raw) ∨
        ∃ r, Statement.read last = .rule r := by
      cases hread : Statement.read last with
      | initial raw => exact .inl ⟨raw, rfl⟩
      | rule r => exact .inr ⟨r, rfl⟩
      | directive d =>
        have hd : d ∈ directivesIn t := List.mem_filterMap.mpr ⟨_, hlast, by rw [hread]; rfl⟩
        rw [hds] at hd
        cases hd
      | unknown word => exact absurd hread (hknown word)
      | comment => exact absurd hread hcomment
    obtain ⟨raw, hraw, hdangling'⟩ := Statement.exists_dangling hdangling hadds
    exact exists_decode_iff.mp (hdecodes raw hraw) hdangling'

/-- **Where a program is refused for a dangling backslash.** Let the text of a program without
    directives be cut into its statements. Of the raw texts that are decoded, namely the initial
    text and the pieces of keys and values between their percent signs, none before the last of the
    last statement can end in an odd number of backslashes: they can all be decoded.

    Whether or not every matcher can be made, if the program is compiled or refused for a dangling
    backslash, then it is refused if and only if its text ends in an odd number of backslashes and
    the last statement begins with the word of the initial text and a space, or has an equals sign
    that is not protected. -/
theorem compile_dangling_iff {before : List Text} {last : Text}
    (hsplit : (split endsStatement t).toList = before ++ [last]) (hds : directivesIn t = []) :
    (∀ s ∈ before, ∀ raw ∈ (Statement.read s).rawTexts, ∃ u, decode raw = some u) ∧
    (∀ raw ∈ (Statement.read last).rawTexts.dropLast, ∃ u, decode raw = some u) ∧
    ∀ build limits, ∀ result ∈ [compile limits t, compileWith build limits t],
      (∃ p, result = .ok p) ∨ result = .error .danglingBackslash →
        (result = .error .danglingBackslash ↔ Odd (trailingBackslashes t) ∧
          ("str ".toList <+: last ∨ .bare '=' ∈ glyphs last)) := by
  have hcut := toList_split_iff.mp hsplit
  refine ⟨fun s hs raw hraw => ?_, fun raw hraw => ?_, fun build limits result hresult hends => ?_⟩
  · have hcomplete := (hcut.sealed_of_mem s hs).complete
    exact exists_decode_iff.mpr (Statement.complete_of_complete hcomplete hraw)
  · exact exists_decode_iff.mpr (Statement.complete_of_mem_dropLast hraw)
  · rw [← dangling_mem_glyphs_iff, hcut.dangling_iff, ← Statement.read_ne_comment_iff]
    rcases List.mem_pair.mp hresult with rfl | rfl
    · rw [← compileWith_accepting] at hends ⊢
      exact compileWith_dangling_iff hcut hds hends
    · exact compileWith_dangling_iff hcut hds hends

/-- A comment that ends in a pair of backslashes, and a rule whose value ends in three of them. -/
theorem compile_dangling_value :
    compile {} "a\\;b \\\\\na%\\==b%\\\\\\".toList = .error .danglingBackslash ∧
      Odd (trailingBackslashes "a\\;b \\\\\na%\\==b%\\\\\\".toList) ∧
      ("str ".toList <+: "a%\\==b%\\\\\\".toList ∨
        .bare '=' ∈ glyphs "a%\\==b%\\\\\\".toList) := by
  have hsplit : (split endsStatement "a\\;b \\\\\na%\\==b%\\\\\\".toList).toList =
      ["a\\;b \\\\".toList] ++ ["a%\\==b%\\\\\\".toList] := rfl
  obtain ⟨-, -, hiff⟩ := compile_dangling_iff hsplit rfl
  have hrefused : compile {} "a\\;b \\\\\na%\\==b%\\\\\\".toList =
      .error .danglingBackslash := rfl
  exact ⟨hrefused, (hiff (fun _ => none) {} _ List.mem_cons_self (.inr hrefused)).mp hrefused⟩

end Program

end NormalAlgorithm
