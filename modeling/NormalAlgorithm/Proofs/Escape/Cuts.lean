import NormalAlgorithm.Proofs.Escape.Sealed
import Mathlib.Algebra.Ring.Parity
import Mathlib.Data.List.DropRight

/-!
# Cuts

A text is cut without looking at what it stands for. Still no cut goes through a glyph: every piece
but the last is sealed, so that its backslashes protect what they protected in the whole text, and
the last piece ends in a dangling backslash exactly when the text does. The pieces are determined by
these properties, and the text can be put together from them.

Which backslash dangles can be said without reading glyphs: backslashes protect each other in pairs,
and what is left over of an odd number of them at the end of a text dangles.

Results:
* `dangling_mem_glyphs_iff`: a backslash dangles at the end of a text exactly when the text ends in
  an odd number of them.
* `toList_split_iff`: the pieces of a text are the only ones that it can be cut into.
* `CutInto.sealed_of_mem`, `CutInto.dangling_iff`: only the last piece can end in a dangling
  backslash.
* `CutInto.countP_separates`: how many pieces there are.
* `cutAt?_eq_some_iff`: where a text is cut at the first separator.
-/

namespace NormalAlgorithm

/-! ## Backslashes at the end -/

/-- The number of backslashes at the end of a text. -/
def trailingBackslashes (t : Text) : Nat := (t.rtakeWhile (· = '\\')).length

theorem dangling_mem_glyphs_replicate (n : Nat) :
    .dangling ∈ glyphs (List.replicate n '\\') ↔ Odd n := by
  induction n using Nat.twoStepInduction with
  | zero => simp
  | one => simp
  | more n ih _ =>
    rw [List.replicate_succ, List.replicate_succ, glyphs_escaped, List.mem_cons, ih,
      Nat.odd_add_one, Nat.not_odd_iff_even, Nat.even_add_one, Nat.not_even_iff_odd]
    simp

/-- A backslash that dangles is the last character. -/
theorem getLast?_of_dangling {t : Text} (h : .dangling ∈ glyphs t) : t.getLast? = some '\\' := by
  have hlast : ∀ {c : Char} {t : Text}, t.getLast? = some '\\' → (c :: t).getLast? = some '\\' :=
    fun h => by rw [List.getLast?_cons, h]; rfl
  fun_induction glyphs t with
  | case1 => cases h
  | case2 => rfl
  | case3 c hc => cases List.mem_singleton.mp h
  | case4 d t ih => exact hlast (hlast (ih (by simpa using h)))
  | case5 c d t hc ih => exact hlast (ih (by simpa using h))

/-- **Backslashes protect each other in pairs.** -/
theorem dangling_mem_glyphs_iff {t : Text} :
    .dangling ∈ glyphs t ↔ Odd (trailingBackslashes t) := by
  -- In front of the backslashes at the end nothing dangles, since the last character is another.
  have hcomplete : .dangling ∉ glyphs (t.rdropWhile (· = '\\')) := by
    intro h
    have hlast := getLast?_of_dangling h
    have hne : t.rdropWhile (· = '\\') ≠ [] := by
      intro hnil
      rw [hnil] at hlast
      cases hlast
    rw [List.getLast?_eq_some_getLast hne] at hlast
    exact List.rdropWhile_last_not _ _ hne (decide_eq_true (Option.some.inj hlast))
  have hbackslashes : t.rtakeWhile (· = '\\') = List.replicate (trailingBackslashes t) '\\' :=
    List.eq_replicate_of_mem fun c hc => by simpa using List.mem_rtakeWhile_imp hc
  have ht : glyphs t = glyphs (t.rdropWhile (· = '\\')) ++ glyphs (t.rtakeWhile (· = '\\')) := by
    rw [← glyphs_append hcomplete, List.rdropWhile_append_rtakeWhile]
  rw [ht, List.mem_append, hbackslashes, dangling_mem_glyphs_replicate]
  exact or_iff_right hcomplete

theorem complete_iff {t : Text} : .dangling ∉ glyphs t ↔ Even (trailingBackslashes t) := by
  rw [dangling_mem_glyphs_iff, Nat.not_odd_iff_even]

theorem exists_decode_iff {t : Text} : (∃ u, decode t = some u) ↔ .dangling ∉ glyphs t := by
  rw [← decode_eq_none_iff, ← Option.ne_none_iff_exists']

/-- Behind a complete text and a character that is no backslash, the same backslash dangles. -/
theorem dangling_behind_iff {s t : Text} {c : Char} (hs : .dangling ∉ glyphs s) (hc : c ≠ '\\') :
    .dangling ∈ glyphs (s ++ c :: t) ↔ .dangling ∈ glyphs t := by
  rw [glyphs_append hs, glyphs_bare hc, List.mem_append, List.mem_cons]
  simp [hs]

/-! ## Cutting at every separator -/

/-- The text is cut into these pieces: each of those before the last is sealed and stands before a
    separator, and no separator stands bare in the last. -/
inductive CutInto (isSeparator : Char → Bool) : Text → List Text → Text → Prop
  | last {t : Text} (uncut : ∀ g ∈ glyphs t, g.separates isSeparator = false) :
    CutInto isSeparator t [] t
  | cut {s t last : Text} {c : Char} {before : List Text} (closed : Sealed isSeparator s)
      (separates : isSeparator c = true) (plain : c ≠ '\\')
      (behind : CutInto isSeparator t before last) :
    CutInto isSeparator (s ++ c :: t) (s :: before) last

section

variable {isSeparator : Char → Bool} {s t last : Text} {before : List Text}

/-- A sealed text in front becomes part of the first piece. -/
theorem CutInto.prepend (hs : Sealed isSeparator s) (h : CutInto isSeparator t before last) :
    ∃ before' last', CutInto isSeparator (s ++ t) before' last' := by
  cases h with
  | last uncut =>
    refine ⟨_, _, .last fun g hg => ?_⟩
    rw [glyphs_append hs.complete, List.mem_append] at hg
    exact hg.elim (hs.not_separates g) (uncut g)
  | cut closed separates plain behind =>
    rw [← List.append_assoc]
    exact ⟨_, _, .cut (hs.append closed) separates plain behind⟩

theorem exists_cutInto (isSeparator : Char → Bool) (t : Text) :
    ∃ before last, CutInto isSeparator t before last := by
  have hbare : ∀ {c : Char} {t : Text}, c ≠ '\\' →
      (∃ before last, CutInto isSeparator t before last) →
        ∃ before last, CutInto isSeparator (c :: t) before last := by
    rintro c t hc ⟨before, last, h⟩
    cases hsep : isSeparator c with
    | true => exact ⟨_, _, .cut .nil hsep hc h⟩
    | false => exact h.prepend (.cons hc hsep .nil)
  fun_induction glyphs t with
  | case1 => exact ⟨_, _, .last (by simp)⟩
  | case2 => exact ⟨_, _, .last (by simp [Glyph.separates])⟩
  | case3 c hc => exact hbare hc ⟨_, _, .last (by simp)⟩
  | case4 d t ih =>
    -- What is protected is never a cut: it goes with the first piece of the rest.
    obtain ⟨before, last, h⟩ := ih
    exact h.prepend (s := ['\\', d]) (by simp [Sealed, Glyph.separates])
  | case5 c d t hc ih => exact hbare hc ih

theorem CutInto.toList_split (h : CutInto isSeparator t before last) :
    (split isSeparator t).toList = before ++ [last] := by
  induction h with
  | last uncut => rw [split_bare uncut]; rfl
  | cut closed separates plain _ ih =>
    rw [split_of_sealed closed separates plain, Pieces.toList, ih, List.cons_append]

/-- **There is one way to cut a text.** -/
theorem toList_split_iff :
    (split isSeparator t).toList = before ++ [last] ↔ CutInto isSeparator t before last := by
  constructor
  · intro hsplit
    obtain ⟨before', last', h⟩ := exists_cutInto isSeparator t
    obtain ⟨rfl, rfl⟩ := List.append_singleton_inj.mp (h.toList_split.symm.trans hsplit)
    exact h
  · exact CutInto.toList_split

theorem CutInto.sealed_of_mem (h : CutInto isSeparator t before last) :
    ∀ s ∈ before, Sealed isSeparator s := by
  induction h with
  | last => simp
  | cut closed _ _ _ ih => exact List.forall_mem_cons.mpr ⟨closed, ih⟩

/-- A backslash dangles at the end of the text exactly when it dangles at the end of the last
    piece. -/
theorem CutInto.dangling_iff (h : CutInto isSeparator t before last) :
    .dangling ∈ glyphs t ↔ .dangling ∈ glyphs last := by
  induction h with
  | last => rfl
  | cut closed _ plain _ ih => rw [dangling_behind_iff closed.complete plain, ih]

/-- There are as many pieces before the last as there are bare separators. -/
theorem CutInto.countP_separates (h : CutInto isSeparator t before last) :
    (glyphs t).countP (Glyph.separates isSeparator) = before.length := by
  have hnone : ∀ {t : Text}, (∀ g ∈ glyphs t, g.separates isSeparator = false) →
      (glyphs t).countP (Glyph.separates isSeparator) = 0 :=
    fun h => List.countP_eq_zero.mpr fun g hg => by simp [h g hg]
  induction h with
  | last uncut => exact hnone uncut
  | @cut s t last c before closed separates plain _ ih =>
    have hc : (Glyph.bare c).separates isSeparator = true := separates
    rw [glyphs_append closed.complete, glyphs_bare plain, List.countP_append,
      hnone closed.not_separates, List.countP_cons_of_pos hc, ih, List.length_cons, Nat.zero_add]

/-! ## Cutting at the first separator -/

/-- A text is cut at the separator behind the sealed text in front of it. -/
theorem cutAt?_eq_some_iff {c : Char} (hc : c ≠ '\\') {key value : Text} :
    cutAt? c t = some (key, value) ↔ t = key ++ c :: value ∧ Sealed (· = c) key := by
  constructor
  · intro h
    obtain ⟨before, last, hcut⟩ := exists_cutInto (· = c) t
    cases hcut with
    | last uncut =>
      have hmem : .bare c ∈ glyphs t := by
        by_contra hnone
        rw [cutAt?_eq_none_iff.mpr hnone] at h
        cases h
      simpa [Glyph.separates] using uncut _ hmem
    | cut closed separates plain _ =>
      obtain rfl := of_decide_eq_true separates
      rw [cutAt?_of_sealed closed plain] at h
      cases h
      exact ⟨rfl, closed⟩
  · rintro ⟨rfl, hsealed⟩
    exact cutAt?_of_sealed hsealed hc value

end

end NormalAlgorithm
