import NormalAlgorithm.Escape.Glyph

/-!
# Escaped text

What a raw text stands for, and a raw text that stands for a given one. The letter `n` behind a
backslash is a line feed; any other character behind a backslash is itself. A dangling backslash
stands for nothing, and the text that ends in one has no meaning.

Results:
* `decode_eq_none_iff`: only a dangling backslash leaves a text without meaning.
* `decode_encode`: an encoded text stands for the text that was encoded.
-/

namespace NormalAlgorithm

/-! ## Decoding -/

/-- The character that a glyph stands for. -/
def Glyph.meaning : Glyph → Option Char
  | .bare c => some c
  | .escaped c => some (if c = 'n' then '\n' else c)
  | .dangling => none

/-- The characters that glyphs stand for. -/
def meanings : List Glyph → Option Text
  | [] => some []
  | g :: gs => g.meaning.bind fun c => (meanings gs).map (c :: ·)

/-- The text that a raw text stands for. -/
def decode (t : Text) : Option Text := meanings (glyphs t)

theorem meanings_eq_none_iff {gs : List Glyph} : meanings gs = none ↔ .dangling ∈ gs := by
  induction gs with
  | nil => simp [meanings]
  | cons g gs ih => cases g <;> simp [meanings, Glyph.meaning, ih]

theorem decode_eq_none_iff {t : Text} : decode t = none ↔ .dangling ∈ glyphs t :=
  meanings_eq_none_iff

/-! ## Encoding -/

/-- The characters that mean something in a program, and those that are hard to see. -/
def isSpecial (c : Char) : Bool :=
  c = '\\' || c = ';' || c = '=' || c = ',' || c = '%' || c = '\r' || c = '\t'

/-- The glyph that writes a character. -/
def Glyph.ofChar (c : Char) : Glyph :=
  if c = '\n' then .escaped 'n' else if isSpecial c then .escaped c else .bare c

/-- A raw text, on one line, that stands for the given text. Model of `escape_text` (lexer). -/
def encode (t : Text) : Text := t.flatMap fun c => (Glyph.ofChar c).raw

theorem glyphs_encode (t : Text) : glyphs (encode t) = t.map Glyph.ofChar := by
  induction t with
  | nil => rfl
  | cons c t ih =>
    rw [encode, List.flatMap_cons, List.map_cons, ← ih, ← encode]
    unfold Glyph.ofChar
    split
    · simp [Glyph.raw]
    · split
      · simp [Glyph.raw]
      · rename_i h
        have hc : c ≠ '\\' := fun hc => h (by simp [isSpecial, hc])
        simp [Glyph.raw, glyphs_bare hc]

@[simp] theorem meaning_ofChar (c : Char) : (Glyph.ofChar c).meaning = some c := by
  unfold Glyph.ofChar
  split
  · simp_all [Glyph.meaning]
  · split
    · rename_i h
      have hc : c ≠ 'n' := by rintro rfl; simp [isSpecial] at h
      simp [Glyph.meaning, hc]
    · rfl

theorem decode_encode (t : Text) : decode (encode t) = some t := by
  rw [decode, glyphs_encode]
  induction t with
  | nil => rfl
  | cons c t ih => simp [meanings, ih]

end NormalAlgorithm
