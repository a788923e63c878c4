import NormalAlgorithm.Escape.Code
import NormalAlgorithm.Proofs.Escape.Glued

/-!
# Sealed texts

A raw text is sealed against some characters if none of them stands bare in it and no backslash
dangles at its end. Such a text can stand between separators: it is not cut, and it protects
nothing of what follows it. Encoded texts are sealed against every special character.

Results:
* `sealed_encode`: encoded texts are sealed.
* `split_interleave`, `split_joinWith`: sealed texts with separators between them are cut into
  these texts again.
* `cutAt?_of_sealed`: the first bare separator is the one behind a sealed text.
-/

namespace NormalAlgorithm

/-- Every glyph of the text is complete, and none is a bare separator. -/
def Sealed (isSeparator : Char → Bool) (t : Text) : Prop :=
  ∀ g ∈ glyphs t, g ≠ .dangling ∧ g.separates isSeparator = false

instance (isSeparator : Char → Bool) (t : Text) : Decidable (Sealed isSeparator t) :=
  inferInstanceAs (Decidable (∀ g ∈ glyphs t, g ≠ .dangling ∧ g.separates isSeparator = false))

namespace Sealed

variable {isSeparator : Char → Bool} {s t : Text}

theorem complete (h : Sealed isSeparator s) : .dangling ∉ glyphs s :=
  fun hd => (h .dangling hd).1 rfl

theorem not_separates (h : Sealed isSeparator s) :
    ∀ g ∈ glyphs s, g.separates isSeparator = false :=
  fun g hg => (h g hg).2

theorem append (hs : Sealed isSeparator s) (ht : Sealed isSeparator t) :
    Sealed isSeparator (s ++ t) := by
  intro g hg
  rw [glyphs_append hs.complete, List.mem_append] at hg
  exact hg.elim (hs g) (ht g)

theorem nil : Sealed isSeparator [] := by
  intro g hg
  cases hg

theorem cons {c : Char} (hc : c ≠ '\\') (hsep : isSeparator c = false)
    (ht : Sealed isSeparator t) : Sealed isSeparator (c :: t) := by
  intro g hg
  rw [glyphs_bare hc, List.mem_cons] at hg
  rcases hg with rfl | hg
  · exact ⟨by simp, hsep⟩
  · exact ht g hg

end Sealed

/-- A sealed text between sealed pieces. -/
theorem sealed_joinWith {isSeparator : Char → Bool} {between : Text} {p : Pieces}
    (hbetween : Sealed isSeparator between) (h : ∀ t ∈ p.toList, Sealed isSeparator t) :
    Sealed isSeparator (p.joinWith between) := by
  obtain ⟨first, rest⟩ := p
  obtain ⟨hfirst, hrest⟩ := List.forall_mem_cons.mp h
  induction rest generalizing first with
  | nil => simpa [Pieces.joinWith] using hfirst
  | cons t rest ih =>
    obtain ⟨ht, hrest'⟩ := List.forall_mem_cons.mp hrest
    have hjoined := ih (first ++ (between ++ t)) (List.forall_mem_cons.mpr
      ⟨hfirst.append (hbetween.append ht), hrest'⟩) (hfirst.append (hbetween.append ht)) hrest'
    simpa [Pieces.joinWith, List.append_assoc] using hjoined

/-- An encoded text is sealed against the special characters and the line feed. -/
theorem sealed_encode {isSeparator : Char → Bool}
    (h : ∀ c, isSeparator c = true → c = '\n' ∨ isSpecial c = true) (t : Text) :
    Sealed isSeparator (encode t) := by
  intro g hg
  rw [glyphs_encode, List.mem_map] at hg
  obtain ⟨c, -, rfl⟩ := hg
  unfold Glyph.ofChar
  split
  · exact ⟨by simp, rfl⟩
  · split
    · exact ⟨by simp, rfl⟩
    · refine ⟨by simp, Bool.eq_false_iff.mpr fun hsep => ?_⟩
      rcases h c hsep with hline | hspecial <;> contradiction

/-- One special character as a separator. -/
theorem isSpecial_of_eq {d : Char} (hd : isSpecial d = true) (c : Char)
    (h : decide (c = d) = true) : c = '\n' ∨ isSpecial c = true := by
  rw [of_decide_eq_true h]
  exact .inr hd

theorem sealed_map_encode {isSeparator : Char → Bool}
    (h : ∀ c, isSeparator c = true → c = '\n' ∨ isSpecial c = true) (p : Pieces) :
    ∀ t ∈ (p.map encode).toList, Sealed isSeparator t := by
  intro t ht
  rw [Pieces.toList_map, List.mem_map] at ht
  obtain ⟨u, -, rfl⟩ := ht
  exact sealed_encode h u

/-! ## Cutting at every separator -/

section

variable {isSeparator : Char → Bool} {c : Char} {s : Text}

/-- Behind a sealed text, the separator cuts. -/
theorem split_of_sealed (h : Sealed isSeparator s) (hsep : isSeparator c = true) (hc : c ≠ '\\')
    (t : Text) : split isSeparator (s ++ c :: t) = ⟨s, (split isSeparator t).toList⟩ := by
  have hbare : (Glyph.bare c).separates isSeparator = true := hsep
  have hcut : split isSeparator (c :: t) = ⟨[], (split isSeparator t).toList⟩ := by
    rw [split, glyphs_bare hc, splitGlyphs, if_pos hbare]
    rfl
  rw [split_append h.complete, split_bare h.not_separates, hcut, Pieces.glue_single,
    List.append_nil]

/-- Sealed texts, each behind a separator, are cut into these texts again. -/
theorem split_interleave {rest : List (Char × Text)} (h : Sealed isSeparator s)
    (hrest : ∀ x ∈ rest, isSeparator x.1 = true ∧ x.1 ≠ '\\' ∧ Sealed isSeparator x.2) :
    split isSeparator (s ++ rest.flatMap fun x => x.1 :: x.2) = ⟨s, rest.map Prod.snd⟩ := by
  induction rest generalizing s with
  | nil => simpa using split_bare h.not_separates
  | cons x rest ih =>
    obtain ⟨⟨hsep, hc, hx⟩, hrest⟩ := List.forall_mem_cons.mp hrest
    rw [List.flatMap_cons, List.cons_append, split_of_sealed h hsep hc, ih hx hrest]
    rfl

theorem split_joinWith {p : Pieces} (hsep : isSeparator c = true) (hc : c ≠ '\\')
    (h : ∀ t ∈ p.toList, Sealed isSeparator t) : split isSeparator (p.joinWith [c]) = p := by
  obtain ⟨hfirst, hrest⟩ := List.forall_mem_cons.mp h
  have hpairs : ∀ x ∈ p.rest.map fun t => (c, t),
      isSeparator x.1 = true ∧ x.1 ≠ '\\' ∧ Sealed isSeparator x.2 := by
    intro x hx
    obtain ⟨t, ht, rfl⟩ := List.mem_map.mp hx
    exact ⟨hsep, hc, hrest t ht⟩
  simpa [Pieces.joinWith, List.flatMap_map, Function.comp_def] using
    split_interleave hfirst hpairs

/-! ## Cutting at the first separator -/

/-- A sealed text is not cut. -/
theorem cutAt?_sealed (h : Sealed (· = c) s) : cutAt? c s = none :=
  cutAt?_eq_none_iff.mpr fun hmem => by simpa [Glyph.separates] using (h _ hmem).2

/-- The first bare separator is the one behind a sealed text. -/
theorem cutAt?_of_sealed (h : Sealed (· = c) s) (hc : c ≠ '\\') (t : Text) :
    cutAt? c (s ++ c :: t) = some (s, t) := by
  have hcut : cutAt? c (c :: t) = some ([], t) := by
    rw [cutAt?, glyphs_bare hc, cutGlyphsAt?, if_pos rfl, spell_glyphs]
  simp [cutAt?_append h.complete, cutAt?_sealed h, hcut]

end

end NormalAlgorithm
