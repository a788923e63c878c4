import NormalAlgorithm.Proofs.Escape.Cuts
import NormalAlgorithm.Statement

/-!
# Faithful cuts

What it means to cut a text rightly can be said without reading glyphs. Put together again with
separators between them, the segments give the text; a separator that was left inside a segment is
protected by a backslash; and no separator that was used as a cut was protected by one. Backslashes
protect each other in pairs, so both conditions are about the number of backslashes directly in
front of a character: an odd number protects it, an even number does not. There is exactly one such
cut.

Results:
* `bare_mem_glyphs_iff`: a character is bare behind an even number of backslashes.
* `protects_iff`: what the segments must not contain, by glyphs.
* `FaithfulCut.cutInto`, `CutInto.faithful`: faithful cuts are those into sealed pieces.
* `interleave_injective`: the separators are determined by the segments.
* `split_faithful`: cutting at every separator is the only faithful cut.
-/

namespace NormalAlgorithm

/-! ## What is protected -/

/-- Every separator in the text stands behind an odd number of backslashes. -/
def Protects (isSeparator : Char → Bool) (t : Text) : Prop :=
  ∀ before c behind, t = before ++ c :: behind → isSeparator c = true →
    Odd (trailingBackslashes before)

/-- A character other than the backslash is bare behind an even number of backslashes. -/
theorem bare_mem_glyphs_iff {c : Char} (hc : c ≠ '\\') {t : Text} :
    .bare c ∈ glyphs t ↔
      ∃ before behind, t = before ++ c :: behind ∧ Even (trailingBackslashes before) := by
  simp only [← complete_iff]
  constructor
  · intro h
    fun_induction glyphs t with
    | case1 => cases h
    | case2 => simp at h
    | case3 d hd =>
      cases List.mem_singleton.mp h
      exact ⟨[], [], rfl, by simp⟩
    | case4 d t ih =>
      obtain ⟨before, behind, rfl, hcomplete⟩ := ih (by simpa using h)
      exact ⟨'\\' :: d :: before, behind, rfl, by simpa using hcomplete⟩
    | case5 d e t hd ih =>
      rcases List.mem_cons.mp h with hfirst | hrest
      · cases hfirst
        exact ⟨[], e :: t, rfl, by simp⟩
      · obtain ⟨before, behind, heq, hcomplete⟩ := ih hrest
        rw [heq]
        exact ⟨d :: before, behind, rfl, by simpa [glyphs_bare hd] using hcomplete⟩
  · rintro ⟨before, behind, rfl, hcomplete⟩
    rw [glyphs_append hcomplete, glyphs_bare hc]
    exact List.mem_append_right _ List.mem_cons_self

section

variable {isSeparator : Char → Bool} {s t last : Text} {c : Char} {before segments : List Text}
  {separators separators' : List Char}

theorem ne_backslash (hplain : isSeparator '\\' = false) (hsep : isSeparator c = true) :
    c ≠ '\\' := by
  rintro rfl
  rw [hplain] at hsep
  cases hsep

theorem protects_iff (hplain : isSeparator '\\' = false) :
    Protects isSeparator t ↔ ∀ g ∈ glyphs t, g.separates isSeparator = false := by
  constructor
  · intro h g hg
    cases g with
    | bare c =>
      refine Bool.eq_false_iff.mpr fun hsep => ?_
      obtain ⟨before, behind, ht, heven⟩ :=
        (bare_mem_glyphs_iff (ne_backslash hplain hsep)).mp hg
      exact Nat.not_odd_iff_even.mpr heven (h before c behind ht hsep)
    | escaped c => rfl
    | dangling => rfl
  · intro h before c behind ht hsep
    rw [← Nat.not_even_iff_odd]
    intro heven
    have hbare := (bare_mem_glyphs_iff (ne_backslash hplain hsep)).mpr ⟨before, behind, ht, heven⟩
    have hnot : isSeparator c = false := h _ hbare
    rw [hsep] at hnot
    cases hnot

theorem sealed_iff (hplain : isSeparator '\\' = false) :
    Sealed isSeparator t ↔ Protects isSeparator t ∧ Even (trailingBackslashes t) := by
  rw [protects_iff hplain, ← complete_iff]
  constructor
  · exact fun h => ⟨h.not_separates, h.complete⟩
  · rintro ⟨huncut, hcomplete⟩ g hg
    refine ⟨?_, huncut g hg⟩
    rintro rfl
    exact hcomplete hg

/-! ## Faithful cuts -/

/-- Segments put together, with a separator behind each of them but the last. -/
def interleave : List Text → List Char → Text
  | s :: segments, c :: separators => s ++ c :: interleave segments separators
  | segments, _ => segments.flatten

/-- The segments and the separators between them are a cut of the text. -/
structure FaithfulCut (isSeparator : Char → Bool) (t : Text) (segments : List Text)
    (separators : List Char) : Prop where
  /-- There is one separator between each two segments. -/
  length_eq : segments.length = separators.length + 1
  accepted : ∀ c ∈ separators, isSeparator c = true
  /-- Put together, they are the text. -/
  text_eq : t = interleave segments separators
  /-- The segments contain no separator outside an escape. -/
  protects : ∀ s ∈ segments, Protects isSeparator s
  /-- No segment but the last ends in an unpaired backslash. -/
  paired : ∀ s ∈ segments.dropLast, Even (trailingBackslashes s)

/-- A faithful cut is one into sealed pieces. -/
theorem FaithfulCut.cutInto (hplain : isSeparator '\\' = false)
    (h : FaithfulCut isSeparator t segments separators) :
    ∃ before last, segments = before ++ [last] ∧ CutInto isSeparator t before last := by
  obtain ⟨hlength, haccepted, rfl, hprotects, hpaired⟩ := h
  induction segments generalizing separators with
  | nil => cases hlength
  | cons s segments ih =>
    obtain ⟨hs, hsegments⟩ := List.forall_mem_cons.mp hprotects
    cases separators with
    | nil =>
      obtain rfl := List.eq_nil_of_length_eq_zero (Nat.succ.inj hlength)
      refine ⟨[], s, rfl, ?_⟩
      rw [interleave, List.flatten_singleton]
      · exact .last ((protects_iff hplain).mp hs)
      · exact fun _ _ => nofun
    | cons c separators =>
      obtain ⟨hc, hseparators⟩ := List.forall_mem_cons.mp haccepted
      have hlength' : segments.length = separators.length + 1 := Nat.succ.inj hlength
      have hne : segments ≠ [] := by
        rintro rfl
        cases hlength'
      rw [List.dropLast_cons_of_ne_nil hne] at hpaired
      obtain ⟨hs', hpaired'⟩ := List.forall_mem_cons.mp hpaired
      obtain ⟨before, last, rfl, hcut⟩ := ih hlength' hseparators hsegments hpaired'
      exact ⟨s :: before, last, rfl,
        .cut ((sealed_iff hplain).mpr ⟨hs, hs'⟩) hc (ne_backslash hplain hc) hcut⟩

theorem CutInto.faithful (hplain : isSeparator '\\' = false)
    (h : CutInto isSeparator t before last) :
    ∃ separators, FaithfulCut isSeparator t (before ++ [last]) separators := by
  induction h with
  | @last t uncut =>
    exact ⟨[], rfl, nofun, by simp [interleave],
      by simpa using (protects_iff hplain).mpr uncut, nofun⟩
  | @cut s t last c before closed separates _ _ ih =>
    obtain ⟨separators, hlength, haccepted, htext, hprotects, hpaired⟩ := ih
    obtain ⟨hs, hs'⟩ := (sealed_iff hplain).mp closed
    rw [List.dropLast_concat] at hpaired
    refine ⟨c :: separators, ?_, List.forall_mem_cons.mpr ⟨separates, haccepted⟩, ?_,
      List.forall_mem_cons.mpr ⟨hs, hprotects⟩, ?_⟩
    · rw [List.cons_append, List.length_cons, hlength, List.length_cons]
    · rw [List.cons_append, interleave, ← htext]
    · rw [List.dropLast_concat]
      exact List.forall_mem_cons.mpr ⟨hs', hpaired⟩

theorem interleave_injective (hlength : segments.length = separators.length + 1)
    (hlength' : segments.length = separators'.length + 1)
    (h : interleave segments separators = interleave segments separators') :
    separators = separators' := by
  induction segments generalizing separators separators' with
  | nil => cases hlength
  | cons s segments ih =>
    cases separators with
    | nil =>
      refine (List.eq_nil_of_length_eq_zero ?_).symm
      rw [hlength, List.length_nil] at hlength'
      exact (Nat.succ.inj hlength').symm
    | cons c separators =>
      cases separators' with
      | nil =>
        rw [hlength] at hlength'
        cases hlength'
      | cons c' separators' =>
        obtain ⟨rfl, hrest⟩ := List.cons.inj (List.append_cancel_left h)
        rw [ih (Nat.succ.inj hlength) (Nat.succ.inj hlength') hrest]

/-- **Cutting at every separator is the only faithful cut.** Let the backslash be no separator.
    Every text has at least one piece, and the pieces, with the separators found at the cuts between
    them, are a faithful cut: put together they are the text, no piece contains a separator outside
    an escape, and none but the last ends in an unpaired backslash. Any segments and separators of
    which this is true are these. -/
theorem split_faithful (hplain : isSeparator '\\' = false) (t : Text) :
    (split isSeparator t).toList ≠ [] ∧
    ∃ separators, FaithfulCut isSeparator t (split isSeparator t).toList separators ∧
      ∀ segments separators', FaithfulCut isSeparator t segments separators' →
        segments = (split isSeparator t).toList ∧ separators' = separators := by
  obtain ⟨before, last, hcut⟩ := exists_cutInto isSeparator t
  obtain ⟨separators, hfaithful⟩ := hcut.faithful hplain
  rw [hcut.toList_split]
  refine ⟨by simp, separators, hfaithful, fun segments separators' h => ?_⟩
  obtain ⟨before', last', rfl, hcut'⟩ := h.cutInto hplain
  have hsegments : before' ++ [last'] = before ++ [last] :=
    hcut'.toList_split.symm.trans hcut.toList_split
  refine ⟨hsegments, interleave_injective h.length_eq ?_ ?_⟩
  · rw [hsegments, hfaithful.length_eq]
  · rw [← h.text_eq, hfaithful.text_eq, hsegments]

/-- Cut at the ends of statements: a semicolon that is protected, a separator behind two
    backslashes, an empty statement and a backslash at the end. -/
theorem split_faithful_statements :
    let t := "a\\;b;\\\\\n;c\\".toList
    let segments := ["a\\;b".toList, "\\\\".toList, [], "c\\".toList]
    endsStatement '\\' = false ∧ FaithfulCut endsStatement t segments [';', '\n', ';'] ∧
      ∀ segments' separators, FaithfulCut endsStatement t segments' separators →
        segments' = segments ∧ separators = [';', '\n', ';'] := by
  intro t segments
  have hplain : endsStatement '\\' = false := by decide
  have hsplit : (split endsStatement t).toList = segments := rfl
  have ht : t = interleave segments [';', '\n', ';'] := rfl
  obtain ⟨-, separators, hfaithful, hunique⟩ := split_faithful hplain t
  rw [hsplit] at hfaithful hunique
  obtain rfl : separators = [';', '\n', ';'] :=
    interleave_injective hfaithful.length_eq rfl (hfaithful.text_eq.symm.trans ht)
  exact ⟨hplain, hfaithful, hunique⟩

end

end NormalAlgorithm
