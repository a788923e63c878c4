import NormalAlgorithm.Escape.Glyph
import NormalAlgorithm.Text.Pieces

/-!
# Cutting raw text

A raw text is cut at bare characters only: a separator that is protected by a backslash stays
inside its piece. The pieces are raw text again.

Results:
* `split_bare`: a text without bare separators is one piece.
* `cutAt?_eq_none_iff`: a text without a bare occurrence of the character cannot be cut at it.
-/

namespace NormalAlgorithm

/-- Whether a glyph is a bare separator. -/
def Glyph.separates (isSeparator : Char → Bool) : Glyph → Bool
  | .bare c => isSeparator c
  | _ => false

/-! ## At every separator -/

/-- The raw texts between the bare separators. -/
def splitGlyphs (isSeparator : Char → Bool) : List Glyph → Pieces
  | [] => ⟨[], []⟩
  | g :: gs =>
    let p := splitGlyphs isSeparator gs
    if g.separates isSeparator then ⟨[], p.first :: p.rest⟩ else ⟨g.raw ++ p.first, p.rest⟩

/-- Cuts a raw text at every bare separator. Model of `split_unescaped` (lexer). -/
def split (isSeparator : Char → Bool) (t : Text) : Pieces := splitGlyphs isSeparator (glyphs t)

theorem splitGlyphs_bare {isSeparator : Char → Bool} {gs : List Glyph}
    (h : ∀ g ∈ gs, g.separates isSeparator = false) :
    splitGlyphs isSeparator gs = ⟨spell gs, []⟩ := by
  induction gs with
  | nil => rfl
  | cons g gs ih =>
    have hg : g.separates isSeparator = false := h g List.mem_cons_self
    simp [splitGlyphs, hg, ih fun x hx => h x (List.mem_cons_of_mem _ hx)]

theorem split_bare {isSeparator : Char → Bool} {t : Text}
    (h : ∀ g ∈ glyphs t, g.separates isSeparator = false) : split isSeparator t = ⟨t, []⟩ := by
  rw [split, splitGlyphs_bare h, spell_glyphs]

/-! ## At the first separator -/

/-- The raw texts before and behind the first bare `c`. -/
def cutGlyphsAt? (c : Char) : List Glyph → Option (Text × Text)
  | [] => none
  | g :: gs =>
    if g = .bare c then some ([], spell gs)
    else (cutGlyphsAt? c gs).map fun (before, behind) => (g.raw ++ before, behind)

/-- Cuts a raw text at the first bare `c`, if there is one. Model of `split_key_value` (lexer),
    where `c` is the equals sign. -/
def cutAt? (c : Char) (t : Text) : Option (Text × Text) := cutGlyphsAt? c (glyphs t)

theorem cutAt?_eq_none_iff {c : Char} {t : Text} : cutAt? c t = none ↔ .bare c ∉ glyphs t := by
  rw [cutAt?]
  generalize glyphs t = gs
  induction gs with
  | nil => simp [cutGlyphsAt?]
  | cons g gs ih =>
    by_cases h : g = .bare c
    · simp [cutGlyphsAt?, h]
    · simp [cutGlyphsAt?, h, ih, Ne.symm h]

end NormalAlgorithm
