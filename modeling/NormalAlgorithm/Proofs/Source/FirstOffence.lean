import NormalAlgorithm.Proofs.Source.Contents
import NormalAlgorithm.Proofs.Statement.Grammar

/-!
# The first offence

A source is read in one pass that carries along what it has found and gives up at the first fault.
What it accepts can be said of all statements at once: at most one gives the initial text, this
text can be decoded, every keyword is known, and there are not too many rules, not too many
directives and not too long an initial text. When it gives up, the fault is that of the first
statement with which the statements so far no longer satisfy this; only the size of the initial text
is looked at when all statements are known.

Results:
* `collects_iff`: statements add up to a source exactly when they are admissible, and then to this
  source.
* `addAll_eq_error_iff`: the fault is that of the first statement that offends.
* `exists_offends_iff`: a statement offends exactly when admissible statements are no longer so with
  it.
* `read_by_grammar`: the statements of a source, and what reading it comes to.
-/

namespace NormalAlgorithm

namespace Source

/-! ## Admissible statements -/

/-- What all statements must satisfy together, the size of the initial text aside. -/
structure Admissible (limits : Limits) (sts : List Statement) : Prop where
  /-- Every keyword is known. -/
  known : ∀ word, .unknown word ∉ sts
  /-- At most one statement gives the initial text. -/
  single : (sts.filterMap Statement.initial?).length ≤ 1
  /-- The initial text can be decoded. -/
  decodable : ∀ raw ∈ sts.filterMap Statement.initial?, ∃ t, decode raw = some t
  rules : (sts.filterMap Statement.rule?).length ≤ limits.rules
  directives : (sts.filterMap Statement.directive?).length ≤ limits.directives

/-- The source of these statements: the initial text, decoded, and the rules and directives, as raw
    text and in their order. -/
def ofStatements (sts : List Statement) : Source where
  initial? := (sts.filterMap Statement.initial?).head?.bind decode
  rules := sts.filterMap Statement.rule?
  directives := sts.filterMap Statement.directive?

/-- What a statement does wrong behind others, and its fault. A second initial text is refused
    before it is decoded, and an unknown keyword before anything is counted. -/
inductive Offends (limits : Limits) (before : List Statement) : Statement → Fault → Prop
  | secondInitial {raw : Text} (given : before.filterMap Statement.initial? ≠ []) :
    Offends limits before (.initial raw) .secondInitial
  | danglingBackslash {raw : Text} (notGiven : before.filterMap Statement.initial? = [])
      (meaningless : decode raw = none) : Offends limits before (.initial raw) .danglingBackslash
  | unknownKeyword (word : Text) : Offends limits before (.unknown word) (.unknownKeyword word)
  | tooManyRules {r : RawRule}
      (full : limits.rules ≤ (before.filterMap Statement.rule?).length) :
    Offends limits before (.rule r) .tooManyRules
  | tooManyDirectives {d : Directive}
      (full : limits.directives ≤ (before.filterMap Statement.directive?).length) :
    Offends limits before (.directive d) .tooManyDirectives

section

variable {limits : Limits} {sts before : List Statement} {st : Statement} {s : Source} {f : Fault}

theorem givesInitial_iff {raws : List Text} {initial? : Option Text} :
    GivesInitial raws initial? ↔ raws.length ≤ 1 ∧ (∀ raw ∈ raws, ∃ t, decode raw = some t) ∧
      initial? = raws.head?.bind decode := by
  constructor
  · rintro (_ | decoded)
    · simp
    · simp [decoded]
  · rintro ⟨hlength, hdecode, rfl⟩
    match raws, hlength with
    | [], _ => exact .never
    | [raw], _ =>
      obtain ⟨t, ht⟩ := hdecode raw List.mem_cons_self
      simpa [ht] using GivesInitial.once ht

theorem collects_iff : Collects limits sts s ↔ Admissible limits sts ∧ s = ofStatements sts := by
  obtain ⟨initial?, rules, directives⟩ := s
  constructor
  · rintro ⟨hknown, hinitial, ⟨rfl, hrules⟩, rfl, hdirectives⟩
    obtain ⟨hsingle, hdecode, rfl⟩ := givesInitial_iff.mp hinitial
    exact ⟨⟨hknown, hsingle, hdecode, hrules, hdirectives⟩, rfl⟩
  · rintro ⟨⟨hknown, hsingle, hdecode, hrules, hdirectives⟩, hs⟩
    cases hs
    exact ⟨hknown, givesInitial_iff.mpr ⟨hsingle, hdecode, rfl⟩, ⟨rfl, hrules⟩, rfl, hdirectives⟩

theorem addAll_ofStatements (h : Admissible limits sts) :
    addAll limits {} sts = .ok (ofStatements sts) :=
  addAll_eq_ok_iff.mpr (collects_iff.mpr ⟨h, rfl⟩)

/-! ## Offences -/

theorem initial?_ofStatements_isSome_iff (h : Admissible limits before) :
    (ofStatements before).initial?.isSome = true ↔ before.filterMap Statement.initial? ≠ [] := by
  cases hraws : before.filterMap Statement.initial? with
  | nil => simp [ofStatements, hraws]
  | cons raw raws =>
    obtain ⟨t, ht⟩ := h.decodable raw (hraws ▸ List.mem_cons_self)
    simp [ofStatements, hraws, ht]

/-- The fault of a statement behind admissible ones. -/
theorem add_eq_error_iff (h : Admissible limits before) :
    (ofStatements before).add limits st = .error f ↔ Offends limits before st f := by
  have hgiven := initial?_ofStatements_isSome_iff h
  constructor
  · intro hadd
    cases st with
    | initial raw =>
      rw [add] at hadd
      split_ifs at hadd with hsecond
      · cases hadd
        exact .secondInitial (hgiven.mp hsecond)
      · rcases bind_eq_error_iff.mp hadd with hdecode | ⟨t, -, hpure⟩
        · obtain ⟨hnone, rfl⟩ := decodeOrFault_eq_error_iff.mp hdecode
          exact .danglingBackslash (not_not.mp (mt hgiven.mpr hsecond)) hnone
        · cases hpure
    | rule r =>
      rw [add] at hadd
      split_ifs at hadd with hfull
      cases hadd
      exact .tooManyRules hfull
    | directive d =>
      rw [add] at hadd
      split_ifs at hadd with hfull
      cases hadd
      exact .tooManyDirectives hfull
    | unknown word =>
      cases hadd
      exact .unknownKeyword word
    | comment => cases hadd
  · rintro (given | ⟨notGiven, meaningless⟩ | word | full | full)
    · exact if_pos (hgiven.mpr given)
    · rw [add, if_neg (mt hgiven.mp (not_not.mpr notGiven)),
        decodeOrFault_eq_error_iff.mpr ⟨meaningless, rfl⟩]
      rfl
    · rfl
    · exact if_pos full
    · exact if_pos full

/-- **The fault is that of the first statement that offends.** -/
theorem addAll_eq_error_iff :
    addAll limits {} sts = .error f ↔ ∃ before st after, sts = before ++ st :: after ∧
      Admissible limits before ∧ Offends limits before st f := by
  rw [addAll, foldlM_eq_error_iff]
  constructor
  · rintro ⟨before, st, after, s, hsts, hbefore, herror⟩
    obtain ⟨hadmissible, rfl⟩ := collects_iff.mp (addAll_eq_ok_iff.mp hbefore)
    exact ⟨before, st, after, hsts, hadmissible, (add_eq_error_iff hadmissible).mp herror⟩
  · rintro ⟨before, st, after, hsts, hadmissible, hoffends⟩
    exact ⟨before, st, after, _, hsts, addAll_ofStatements hadmissible,
      (add_eq_error_iff hadmissible).mpr hoffends⟩

theorem admissible_concat_iff (h : Admissible limits before) :
    Admissible limits (before ++ [st]) ↔ ∃ s, (ofStatements before).add limits st = .ok s := by
  constructor
  · intro hall
    obtain ⟨s, hs, hadd⟩ := collects_concat_iff.mp (collects_iff.mpr ⟨hall, rfl⟩)
    obtain ⟨-, rfl⟩ := collects_iff.mp hs
    exact ⟨_, hadd⟩
  · rintro ⟨s, hadd⟩
    have hbefore : Collects limits before (ofStatements before) := collects_iff.mpr ⟨h, rfl⟩
    exact (collects_iff.mp (collects_concat_iff.mpr ⟨_, hbefore, hadd⟩)).1

/-- To offend is to make admissible statements inadmissible. -/
theorem exists_offends_iff (h : Admissible limits before) :
    (∃ f, Offends limits before st f) ↔ ¬ Admissible limits (before ++ [st]) := by
  simp only [← add_eq_error_iff h, admissible_concat_iff h]
  cases (ofStatements before).add limits st <;> simp

/-! ## Reading -/

/-- The statements of a text are those of its pieces. -/
theorem exists_cutInto_statements (t : Text) :
    ∃ before last, CutInto endsStatement t before last ∧
      List.Forall₂ Statement.Means (before ++ [last]) (statements t) := by
  obtain ⟨before, last, hcut⟩ := exists_cutInto endsStatement t
  refine ⟨before, last, hcut, ?_⟩
  rw [statements, hcut.toList_split, List.forall₂_map_right_iff, List.forall₂_same]
  exact fun piece _ => Statement.means_read piece

theorem length_statements (t : Text) :
    (statements t).length = (glyphs t).countP (Glyph.separates endsStatement) + 1 := by
  obtain ⟨before, last, hcut⟩ := exists_cutInto endsStatement t
  rw [statements, hcut.toList_split, List.length_map, List.length_append, List.length_singleton,
    hcut.countP_separates]

theorem read_eq_ok_iff {t : Text} :
    read limits t = .ok s ↔ Admissible limits (statements t) ∧
      units (ofStatements (statements t)).initial ≤ limits.units ∧
      s = ofStatements (statements t) := by
  rw [read_eq_ok, addAll_eq_ok_iff, collects_iff]
  constructor
  · rintro ⟨⟨hadmissible, rfl⟩, hsize⟩
    exact ⟨hadmissible, hsize, rfl⟩
  · rintro ⟨hadmissible, hsize, rfl⟩
    exact ⟨⟨hadmissible, rfl⟩, hsize⟩

theorem read_eq_error_iff {t : Text} :
    read limits t = .error f ↔
      (∃ before st after, statements t = before ++ st :: after ∧
        Admissible limits before ∧ Offends limits before st f) ∨
      Admissible limits (statements t) ∧
        limits.units < units (ofStatements (statements t)).initial ∧ f = .initialTooLong := by
  rw [read, bind_eq_error_iff, addAll_eq_error_iff]
  refine or_congr_right ?_
  simp only [addAll_eq_ok_iff, collects_iff]
  constructor
  · rintro ⟨s, ⟨hadmissible, rfl⟩, hsize⟩
    split_ifs at hsize with hlong
    cases hsize
    exact ⟨hadmissible, hlong, rfl⟩
  · rintro ⟨hadmissible, hlong, rfl⟩
    exact ⟨_, ⟨hadmissible, rfl⟩, if_pos hlong⟩

end

/-- **A source is read by its grammar, up to the first offence.** Let a text be cut at its bare
    semicolons and line feeds. Each piece is a statement of one meaning by the grammar, and there
    is one statement more than there are separators.

    Reading the text succeeds if and only if every keyword is known, at most one statement gives
    the initial text, which can be decoded and is not longer than its limit, and there are not more
    rules and directives than their limits. The source then holds this initial text, or the empty
    one, and the rules and directives in the order of their statements, as raw text.

    Reading fails with a fault if and only if this is the fault of the first statement with which
    the statements so far are no longer admissible, or no statement offends and the initial text is
    too long. -/
theorem read_by_grammar (limits : Limits) (t : Text) :
    (∃ before last, CutInto endsStatement t before last ∧
      List.Forall₂ Statement.Means (before ++ [last]) (statements t)) ∧
    (statements t).length = (glyphs t).countP (Glyph.separates endsStatement) + 1 ∧
    (∀ s, read limits t = .ok s ↔ Admissible limits (statements t) ∧
      units (ofStatements (statements t)).initial ≤ limits.units ∧
      s = ofStatements (statements t)) ∧
    ∀ f, read limits t = .error f ↔
      (∃ before st after, statements t = before ++ st :: after ∧ Admissible limits before ∧
        ¬ Admissible limits (before ++ [st]) ∧ Offends limits before st f) ∨
      Admissible limits (statements t) ∧
        limits.units < units (ofStatements (statements t)).initial ∧ f = .initialTooLong := by
  refine ⟨exists_cutInto_statements t, length_statements t, fun s => read_eq_ok_iff, fun f => ?_⟩
  rw [read_eq_error_iff]
  refine or_congr_left ?_
  constructor
  · rintro ⟨before, st, after, hsts, hadmissible, hoffends⟩
    exact ⟨before, st, after, hsts, hadmissible,
      (exists_offends_iff hadmissible).mp ⟨f, hoffends⟩, hoffends⟩
  · rintro ⟨before, st, after, hsts, hadmissible, -, hoffends⟩
    exact ⟨before, st, after, hsts, hadmissible, hoffends⟩

/-- A second initial text is refused before it is decoded. -/
example : read {} "str a;note\nstr b\\".toList = .error .secondInitial := rfl

end Source

end NormalAlgorithm
