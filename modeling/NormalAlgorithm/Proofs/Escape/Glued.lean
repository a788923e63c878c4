import NormalAlgorithm.Escape.Cut

/-!
# Cutting one text after the other

Behind a text in which no backslash dangles reading starts afresh. Such a text and the text behind
it can therefore be cut one after the other. What the whole is cut into are the pieces of both, but
the last piece of the first text and the first piece of the second become one, since there is no
separator between them. At its first separator the whole is cut where the first text is, if there is
one in it, and otherwise where the second is.

Results:
* `toList_glue`: the pieces of two texts, one by one.
* `split_append`: cutting at every separator.
* `cutAt?_append`: cutting at the first separator.
-/

namespace NormalAlgorithm

/-! ## Pieces of two texts -/

namespace Pieces

/-- The pieces of two texts, where the last of the first and the first of the second are one. -/
def glue (p q : Pieces) : Pieces := go p.first p.rest
where
  /-- The pieces that begin with these. -/
  go : Text → List Text → Pieces
    | last, [] => ⟨last ++ q.first, q.rest⟩
    | first, next :: rest => ⟨first, (go next rest).toList⟩

theorem glue_single (t : Text) (q : Pieces) : glue ⟨t, []⟩ q = ⟨t ++ q.first, q.rest⟩ := rfl

/-- What stands in front of the first piece stays there. -/
theorem glue_append (t : Text) (p q : Pieces) :
    glue ⟨t ++ p.first, p.rest⟩ q = ⟨t ++ (p.glue q).first, (p.glue q).rest⟩ := by
  obtain ⟨first, rest⟩ := p
  cases rest with
  | nil => rw [glue_single, glue_single, List.append_assoc]
  | cons next rest => rfl

theorem toList_glue {p q : Pieces} {before : List Text} {last : Text}
    (h : p.toList = before ++ [last]) :
    (p.glue q).toList = before ++ (last ++ q.first) :: q.rest := by
  obtain ⟨first, rest⟩ := p
  induction rest generalizing first before with
  | nil =>
    cases before with
    | nil =>
      obtain rfl : first = last := List.singleton_inj.mp h
      rfl
    | cons piece before => simp [toList] at h
  | cons next rest ih =>
    cases before with
    | nil => simp [toList] at h
    | cons piece before =>
      obtain ⟨rfl, hrest⟩ := List.cons.inj h
      exact congrArg (first :: ·) (ih next hrest)

end Pieces

/-! ## Cutting -/

section

variable {isSeparator : Char → Bool} {c : Char} {s : Text}

theorem splitGlyphs_append (gs hs : List Glyph) :
    splitGlyphs isSeparator (gs ++ hs) =
      (splitGlyphs isSeparator gs).glue (splitGlyphs isSeparator hs) := by
  induction gs with
  | nil => rfl
  | cons g gs ih =>
    simp only [List.cons_append, splitGlyphs, ih]
    split
    · rfl
    · exact (Pieces.glue_append g.raw _ _).symm

/-- A complete text and the text behind it are cut one after the other. -/
theorem split_append (hs : .dangling ∉ glyphs s) (t : Text) :
    split isSeparator (s ++ t) = (split isSeparator s).glue (split isSeparator t) := by
  rw [split, glyphs_append hs, splitGlyphs_append, ← split, ← split]

theorem cutGlyphsAt?_append (gs hs : List Glyph) :
    cutGlyphsAt? c (gs ++ hs) = match cutGlyphsAt? c gs with
      | some (key, value) => some (key, value ++ spell hs)
      | none => (cutGlyphsAt? c hs).map fun (key, value) => (spell gs ++ key, value) := by
  induction gs with
  | nil => simp [cutGlyphsAt?]
  | cons g gs ih =>
    rw [List.cons_append, cutGlyphsAt?, cutGlyphsAt?]
    split
    · simp
    · rw [ih]
      cases cutGlyphsAt? c gs <;> simp [Function.comp_def]

/-- A complete text and the text behind it are cut in the first if it can be cut, and else in the
    second. -/
theorem cutAt?_append (hs : .dangling ∉ glyphs s) (t : Text) :
    cutAt? c (s ++ t) = match cutAt? c s with
      | some (key, value) => some (key, value ++ t)
      | none => (cutAt? c t).map fun (key, value) => (s ++ key, value) := by
  rw [cutAt?, glyphs_append hs, cutGlyphsAt?_append, spell_glyphs, spell_glyphs, ← cutAt?, ← cutAt?]

end

end NormalAlgorithm
