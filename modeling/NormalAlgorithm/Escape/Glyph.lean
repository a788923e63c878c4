import NormalAlgorithm.Text.Basic

/-!
# Glyphs of a raw text

The backslash protects the character behind it. A raw text is therefore not read character by
character but glyph by glyph: a bare character, a backslash together with the character that it
protects, or a backslash that stands at the very end and protects nothing. Everything that looks
at a raw text (decoding, cutting at separators, finding the equals sign) looks at its glyphs.

Results:
* `raw_glyphs`: the glyphs of a text spell the text.
* `glyphs_append`: behind a text whose last glyph is complete, reading starts afresh.
-/

namespace NormalAlgorithm

/-- A raw text is read as a sequence of glyphs. -/
inductive Glyph where
  /-- A character that stands for itself, or that may separate. -/
  | bare (c : Char)
  /-- A backslash and the character that it protects. -/
  | escaped (c : Char)
  /-- A backslash with nothing behind it. -/
  | dangling
  deriving DecidableEq, Repr

/-- The raw characters of a glyph. -/
def Glyph.raw : Glyph → Text
  | .bare c => [c]
  | .escaped c => ['\\', c]
  | .dangling => ['\\']

/-- The glyphs of a raw text. -/
def glyphs : Text → List Glyph
  | [] => []
  | [c] => if c = '\\' then [.dangling] else [.bare c]
  | c :: d :: t => if c = '\\' then .escaped d :: glyphs t else .bare c :: glyphs (d :: t)

/-- The raw text that a sequence of glyphs spells. -/
def spell (gs : List Glyph) : Text := gs.flatMap Glyph.raw

@[simp] theorem glyphs_nil : glyphs [] = [] := rfl

@[simp] theorem glyphs_dangling : glyphs ['\\'] = [.dangling] := rfl

@[simp] theorem glyphs_escaped (c : Char) (t : Text) :
    glyphs ('\\' :: c :: t) = .escaped c :: glyphs t := by
  simp [glyphs]

theorem glyphs_bare {c : Char} (h : c ≠ '\\') (t : Text) :
    glyphs (c :: t) = .bare c :: glyphs t := by
  cases t <;> simp [glyphs, h]

@[simp] theorem spell_nil : spell [] = [] := rfl

@[simp] theorem spell_cons (g : Glyph) (gs : List Glyph) : spell (g :: gs) = g.raw ++ spell gs :=
  rfl

@[simp] theorem spell_append (gs hs : List Glyph) : spell (gs ++ hs) = spell gs ++ spell hs := by
  simp [spell]

/-- Reading glyphs loses nothing. -/
theorem spell_glyphs (t : Text) : spell (glyphs t) = t := by
  fun_induction glyphs t <;> simp_all [Glyph.raw]

/-- Behind a text whose glyphs are all complete, reading starts afresh. -/
theorem glyphs_append {s : Text} (h : .dangling ∉ glyphs s) (t : Text) :
    glyphs (s ++ t) = glyphs s ++ glyphs t := by
  fun_induction glyphs s with
  | case1 => rfl
  | case2 => simp at h
  | case3 c hc => simp [glyphs_bare hc]
  | case4 d s ih => simp_all
  | case5 c d s hc ih =>
    rw [List.cons_append, glyphs_bare hc, ih (fun hd => h (List.mem_cons_of_mem _ hd)),
      List.cons_append]

end NormalAlgorithm
