import NormalAlgorithm.CommandLine.Answer
import NormalAlgorithm.Proofs.Escape.Decoded
import NormalAlgorithm.Proofs.Statement.Written

/-!
# Encoded text inside other text

An encoded text can be put anywhere into raw text, except behind a backslash that would protect its
first character. Everything then goes on as if it were not there: the raw text in front of it and
the raw text behind it stand for what they stood for, and are cut where they were cut. This has two
causes. Behind a complete text reading starts afresh, so that cutting a complete text and what
follows it can be done one after the other. And no cut goes through an encoded text.

Results:
* `split_embedded`, `cutAt?_embedded`: an encoded text adds no cut.
* `newline_notMem_encode`: an encoded text is one line.
* `encode_embedded`: what becomes of an encoded text between two raw texts.
-/

namespace NormalAlgorithm

/-! ## No cut is added -/

section

variable {isSeparator : Char → Bool} {c : Char} {s : Text}

/-- An encoded text between a complete text and any other adds no cut. -/
theorem split_embedded (h : ∀ c, isSeparator c = true → c = '\n' ∨ isSpecial c = true)
    (hs : .dangling ∉ glyphs s) (t u : Text) :
    split isSeparator (s ++ encode t ++ u) =
      (split isSeparator s).glue
        ⟨encode t ++ (split isSeparator u).first, (split isSeparator u).rest⟩ := by
  have hsealed : Sealed isSeparator (encode t) := sealed_encode h t
  rw [List.append_assoc, split_append hs, split_append hsealed.complete,
    split_bare hsealed.not_separates, Pieces.glue_single]

theorem cutAt?_embedded (hc : isSpecial c = true) (hs : .dangling ∉ glyphs s) (t u : Text) :
    cutAt? c (s ++ encode t ++ u) = match cutAt? c s with
      | some (key, value) => some (key, value ++ encode t ++ u)
      | none => (cutAt? c u).map fun (key, value) => (s ++ encode t ++ key, value) := by
  have hsealed : Sealed (· = c) (encode t) := sealed_encode (isSpecial_of_eq hc) t
  rw [List.append_assoc, cutAt?_append hs, cutAt?_append hsealed.complete, cutAt?_sealed hsealed]
  cases cutAt? c s <;> simp [Function.comp_def]

end

/-! ## One line -/

theorem newline_notMem_encode (t : Text) : '\n' ∉ encode t := by
  have hglyph : ∀ c, '\n' ∉ (Glyph.ofChar c).raw := by
    intro c
    unfold Glyph.ofChar
    split_ifs with hline hspecial
    · decide
    · simp [Glyph.raw, Ne.symm hline]
    · simp [Glyph.raw, Ne.symm hline]
  rw [encode, List.mem_flatMap]
  rintro ⟨c, -, hmem⟩
  exact hglyph c hmem

/-! ## Embedding -/

/-- **An encoded text is opaque.** An encoded text stands for the text that was encoded, and is one
    line, as is the answer to a request for it. Put it between two raw texts, of which the first
    does not end in an unpaired backslash. Then the whole stands for what the first text stands
    for, the text that was encoded, and what the second text stands for, if that stands for
    anything. Wherever raw text is cut, into statements, at percent signs, at commas, or at the
    first equals sign, no cut is added: the last piece of the first text, the encoded text and the
    first piece of the second text become one piece. -/
theorem encode_embedded {s : Text} (hs : Even (trailingBackslashes s)) (t u : Text) :
    decode (encode t) = some t ∧
    (∃ w, decode s = some w ∧
      decode (s ++ encode t ++ u) = (decode u).map fun v => w ++ t ++ v) ∧
    '\n' ∉ encode t ∧
    (∀ build (settings : Settings) traced time, settings.conversion = some .escape →
      answerInput build settings traced time t = { code := 0, out := encode t ++ ['\n'] }) ∧
    (∀ isSeparator ∈ [endsStatement, (· = '%'), (· = ',')], ∃ before last first rest,
      (split isSeparator s).toList = before ++ [last] ∧
      (split isSeparator u).toList = first :: rest ∧
      (split isSeparator (s ++ encode t ++ u)).toList =
        before ++ (last ++ encode t ++ first) :: rest) ∧
    cutAt? '=' (s ++ encode t ++ u) = match cutAt? '=' s with
      | some (key, value) => some (key, value ++ encode t ++ u)
      | none => (cutAt? '=' u).map fun (key, value) => (s ++ encode t ++ key, value) := by
  have hcomplete : .dangling ∉ glyphs s := by
    rw [dangling_mem_glyphs_iff, Nat.not_odd_iff_even]
    exact hs
  obtain ⟨w, hw⟩ := exists_decode_iff.mpr hcomplete
  refine ⟨decode_encode t, ⟨w, hw, ?_⟩, newline_notMem_encode t,
    fun build settings traced time h => ?_, fun isSeparator hmem => ?_,
    cutAt?_embedded rfl hcomplete t u⟩
  · rw [List.append_assoc, decode_append hw, decode_append (decode_encode t), Option.map_map]
    simp only [Function.comp_def, List.append_assoc]
  · rw [answerInput, h]
    rfl
  · have hspecial : ∀ c, isSeparator c = true → c = '\n' ∨ isSpecial c = true := by
      simp only [List.mem_cons, List.not_mem_nil, or_false] at hmem
      rcases hmem with rfl | rfl | rfl
      · exact fun _ => isSpecial_of_endsStatement
      · exact isSpecial_of_eq rfl
      · exact isSpecial_of_eq rfl
    obtain ⟨before, last, hcut⟩ := exists_cutInto isSeparator s
    refine ⟨before, last, _, _, hcut.toList_split, rfl, ?_⟩
    rw [split_embedded hspecial hcomplete, Pieces.toList_glue hcut.toList_split,
      List.append_assoc last]

/-- A text behind two backslashes, and one whose semicolon stays where it was. -/
theorem encode_embedded_semicolons :
    Even (trailingBackslashes "x;a\\\\".toList) ∧
      decode ("x;a\\\\".toList ++ encode "\n;".toList ++ ";y\\".toList) = none ∧
      (split endsStatement ("x;a\\\\".toList ++ encode "\n;".toList ++ ";y\\".toList)).toList =
        ["x".toList, "a\\\\\\n\\;".toList, "y\\".toList] := by
  have hs : Even (trailingBackslashes "x;a\\\\".toList) := by decide
  obtain ⟨-, ⟨w, -, hdecode⟩, -, -, hpieces, -⟩ := encode_embedded hs "\n;".toList ";y\\".toList
  obtain ⟨before, last, first, rest, hfront, hbehind, hall⟩ :=
    hpieces endsStatement List.mem_cons_self
  have hsplit : (split endsStatement "x;a\\\\".toList).toList =
      ["x".toList] ++ ["a\\\\".toList] := rfl
  obtain ⟨rfl, rfl⟩ := List.append_singleton_inj.mp (hfront.symm.trans hsplit)
  obtain ⟨rfl, rfl⟩ : [] = first ∧ ["y\\".toList] = rest := List.cons.inj hbehind
  exact ⟨hs, hdecode, hall⟩

end NormalAlgorithm
