import NormalAlgorithm.Text.Substitute
import NormalAlgorithm.Proofs.Escape.Decoded
import NormalAlgorithm.Proofs.Statement.Written

/-!
# Substitution in encoded text

A token is looked for in a raw text, character by character, where an escape is two characters.
If no character of the token needs an escape, the token is found in an encoded text exactly where
it stands in the text that was encoded. There is one exception: a line feed is encoded with the
letter `n`, at which a token could start. Away from it, to substitute in the encoded text is to
substitute in the text.

Results:
* `isPrefix_encode_iff`, `isInfix_encode_iff`: where a token stands.
* `occurrence_induction`: going through a text as replacement does.
* `replaceAll_of_not_isInfix`: a text without the token is left as it is.
* `decode_replaceAll_encode`: what the encoded text stands for after the replacement.
-/

namespace NormalAlgorithm

/-! ## Bare texts -/

/-- No character of the text is encoded with a backslash. -/
def Bare (t : Text) : Prop := ∀ c ∈ t, c ≠ '\n' ∧ isSpecial c = false

instance (t : Text) : Decidable (Bare t) :=
  List.decidableBAll (fun c => c ≠ '\n' ∧ isSpecial c = false) t

theorem encode_append (s t : Text) : encode (s ++ t) = encode s ++ encode t :=
  List.flatMap_append

theorem encode_of_bare {t : Text} (h : Bare t) : encode t = t := by
  induction t with
  | nil => rfl
  | cons c t ih =>
    obtain ⟨⟨hline, hspecial⟩, ht⟩ := List.forall_mem_cons.mp h
    rw [encode_cons hline hspecial, ih ht]

theorem decode_of_bare {t : Text} (h : Bare t) : decode t = some t := by
  simpa only [encode_of_bare h] using decode_encode t

theorem decode_raw_ofChar (c : Char) : decode (Glyph.ofChar c).raw = some [c] := by
  simpa [encode] using decode_encode [c]

/-- A character is encoded as it is, or with a backslash in front of something. -/
theorem ofChar_cases (c : Char) :
    Glyph.ofChar c = .bare c ∨ ∃ e, Glyph.ofChar c = .escaped e := by
  unfold Glyph.ofChar
  split_ifs
  · exact .inr ⟨'n', rfl⟩
  · exact .inr ⟨c, rfl⟩
  · exact .inl rfl

section

variable {n c e : Char} {ns k : Text}

theorem encode_cons_bare (h : Glyph.ofChar c = .bare c) : encode (c :: k) = c :: encode k := by
  rw [encode, List.flatMap_cons, h]
  rfl

theorem encode_cons_escaped (h : Glyph.ofChar c = .escaped e) :
    encode (c :: k) = '\\' :: e :: encode k := by
  rw [encode, List.flatMap_cons, h]
  rfl

/-- A bare text starts neither at a character that is escaped nor at the backslash. -/
theorem ne_of_escaped (ht : Bare (n :: ns)) (h : Glyph.ofChar c = .escaped e) :
    n ≠ c ∧ n ≠ '\\' := by
  obtain ⟨hn, hspecial⟩ := ht n List.mem_cons_self
  constructor
  · rintro rfl
    simp [Glyph.ofChar, hn, hspecial] at h
  · rintro rfl
    cases hspecial

/-- Nor does it start behind the backslash, unless the letter of a line feed stands there. -/
theorem ne_escape (ht : Bare (n :: ns)) (h : Glyph.ofChar c = .escaped e)
    (hline : c = '\n' → n ≠ 'n') : n ≠ e := by
  obtain ⟨-, hspecial⟩ := ht n List.mem_cons_self
  unfold Glyph.ofChar at h
  split_ifs at h with hc hc'
  · cases h
    exact hline hc
  · cases h
    rintro rfl
    rw [hc'] at hspecial
    cases hspecial

end

/-! ## Occurrences -/

theorem not_isPrefix_of_ne {n c : Char} (h : n ≠ c) (ns t : Text) : ¬ n :: ns <+: c :: t :=
  fun hstart => h (List.cons_prefix_cons.mp hstart).1

theorem isInfix_cons_of_ne {n c : Char} (h : n ≠ c) {ns t : Text} :
    n :: ns <:+: c :: t ↔ n :: ns <:+: t := by
  rw [List.infix_cons_iff, or_iff_right (not_isPrefix_of_ne h ns t)]

/-- A bare text stands at the front of an encoded text exactly when it stands at the front of the
    text. -/
theorem isPrefix_encode_iff {token k : Text} (ht : Bare token) :
    token <+: encode k ↔ token <+: k := by
  induction token generalizing k with
  | nil => simp
  | cons n ns ih =>
    cases k with
    | nil => rfl
    | cons c k =>
      rcases ofChar_cases c with hbare | ⟨e, hescaped⟩
      · rw [encode_cons_bare hbare, List.cons_prefix_cons, List.cons_prefix_cons,
          ih (List.forall_mem_cons.mp ht).2]
      · obtain ⟨hc, hbackslash⟩ := ne_of_escaped ht hescaped
        rw [encode_cons_escaped hescaped]
        exact iff_of_false (not_isPrefix_of_ne hbackslash ns _) (not_isPrefix_of_ne hc ns k)

section

variable {n : Char} {ns k : Text}

/-- A bare text stands in an encoded text exactly when it stands in the text. -/
theorem isInfix_encode_iff (ht : Bare (n :: ns)) (hline : '\n' ∈ k → n ≠ 'n') :
    n :: ns <:+: encode k ↔ n :: ns <:+: k := by
  induction k with
  | nil => rfl
  | cons c k ih =>
    have hrest := ih fun hmem => hline (List.mem_cons_of_mem c hmem)
    rcases ofChar_cases c with hbare | ⟨e, hescaped⟩
    · have hstart : n :: ns <+: encode (c :: k) ↔ n :: ns <+: c :: k := isPrefix_encode_iff ht
      rw [encode_cons_bare hbare] at hstart ⊢
      rw [List.infix_cons_iff, List.infix_cons_iff, hstart, hrest]
    · -- An occurrence starts at neither of the two raw characters of an escape.
      obtain ⟨hc, hbackslash⟩ := ne_of_escaped ht hescaped
      have he : n ≠ e := ne_escape ht hescaped fun hc => hline (hc ▸ List.mem_cons_self)
      rw [encode_cons_escaped hescaped, isInfix_cons_of_ne hbackslash, isInfix_cons_of_ne he,
        isInfix_cons_of_ne hc, hrest]

end

/-! ## Replacement -/

/-- A text is gone through from left to right, in steps over an occurrence of the token where one
    starts, and over one character elsewhere. -/
theorem occurrence_induction {token : Text} (hne : token ≠ []) {motive : Text → Prop}
    (nil : motive []) (occurrence : ∀ rest, motive rest → motive (token ++ rest))
    (character : ∀ c rest, ¬ token <+: c :: rest → motive rest → motive (c :: rest))
    (t : Text) : motive t := by
  induction hsize : t.length using Nat.strongRecOn generalizing t with
  | ind size ih =>
    subst hsize
    by_cases hstart : token <+: t
    · obtain ⟨rest, rfl⟩ := hstart
      have hshorter : rest.length < (token ++ rest).length := by
        rw [List.length_append]
        exact Nat.lt_add_of_pos_left (List.length_pos_iff.mpr hne)
      exact occurrence rest (ih _ hshorter rest rfl)
    · cases t with
      | nil => exact nil
      | cons c rest => exact character c rest hstart (ih _ (Nat.lt_succ_self _) rest rfl)

theorem replaceAll_of_not_isPrefix {n c : Char} {ns t : Text} (value : Text)
    (h : ¬ n :: ns <+: c :: t) :
    replaceAll (n :: ns) value (c :: t) = c :: replaceAll (n :: ns) value t :=
  replaceAll_of_not_starts value (stripStart?_of_not_isPrefix h)

/-- A text in which the token does not stand is left as it is. -/
theorem replaceAll_of_not_isInfix {token t : Text} (value : Text) (h : ¬ token <:+: t) :
    replaceAll token value t = t := by
  cases token with
  | nil => exact absurd List.nil_infix h
  | cons n ns =>
    induction t with
    | nil => exact replaceAll_nil n ns value
    | cons c t ih =>
      rw [List.infix_cons_iff, not_or] at h
      rw [replaceAll_of_not_isPrefix value h.1, ih h.2]

section

variable {n : Char} {ns k : Text}

/-- A character at which no occurrence starts is kept with its escape. -/
theorem replaceAll_encode_cons {c : Char} (ht : Bare (n :: ns)) (hline : c = '\n' → n ≠ 'n')
    (h : ¬ n :: ns <+: c :: k) (value : Text) :
    replaceAll (n :: ns) value (encode (c :: k)) =
      (Glyph.ofChar c).raw ++ replaceAll (n :: ns) value (encode k) := by
  rcases ofChar_cases c with hbare | ⟨e, hescaped⟩
  · have hstart : ¬ n :: ns <+: c :: encode k := by
      rw [← encode_cons_bare hbare]
      exact mt (isPrefix_encode_iff ht).mp h
    rw [encode_cons_bare hbare, replaceAll_of_not_isPrefix value hstart, hbare]
    rfl
  · have hbackslash := not_isPrefix_of_ne (ne_of_escaped ht hescaped).2 ns (e :: encode k)
    have he := not_isPrefix_of_ne (ne_escape ht hescaped hline) ns (encode k)
    rw [encode_cons_escaped hescaped, replaceAll_of_not_isPrefix value hbackslash,
      replaceAll_of_not_isPrefix value he, hescaped]
    rfl

/-- An encoded text in which a raw value is put in place of a token stands for the text in which
    the meaning of the value is put in place of the token. -/
theorem decode_replaceAll_encode {w u : Text} (ht : Bare (n :: ns))
    (hline : '\n' ∈ k → n ≠ 'n') (hvalue : decode w = some u) :
    decode (replaceAll (n :: ns) w (encode k)) = some (replaceAll (n :: ns) u k) := by
  -- Replacement takes the same steps through both texts.
  induction k using occurrence_induction (List.cons_ne_nil n ns) with
  | nil => rfl
  | occurrence rest ih =>
    have hrest := ih fun hmem => hline (List.mem_append_right _ hmem)
    rw [encode_append, encode_of_bare ht, replaceAll_of_starts, replaceAll_of_starts,
      decode_append hvalue, hrest, Option.map_some]
  | character c rest hstart ih =>
    have hrest := ih fun hmem => hline (List.mem_cons_of_mem c hmem)
    rw [replaceAll_encode_cons ht (fun hc => hline (hc ▸ List.mem_cons_self)) hstart,
      replaceAll_of_not_isPrefix u hstart, decode_append (decode_raw_ofChar c), hrest]
    rfl

end

end NormalAlgorithm
