import NormalAlgorithm.Fault
import NormalAlgorithm.Proofs.Escape.Cuts

/-!
# Decoded texts

Decoding consumes backslashes in pairs from the left, and yet the end of a raw text alone says
whether it stands for anything: it does unless it ends in an odd number of backslashes. The same
number says where decoding can be divided. A raw text in front of another can be decoded by itself
if it stands for something, and in no other case, since the backslash left over at its end would
protect what follows. In particular, one more backslash is not always a fault: behind another that
is left over it makes a pair.

Results:
* `decode_append`, `decodeOrFault_append`: behind a raw text that stands for something, decoding
  starts afresh.
* `decode_escape`, `decode_of_notMem`: an escape stands for one character, and a text without
  backslashes for itself.
* `decodeOrFault_eq_dangling_iff`, `exists_decodeOrFault_iff`: which raw texts stand for something.
* `decodeOrFault_concat_backslash_iff`: where one more backslash is a fault.
* `decodeOrFault_append_iff`: where decoding can be divided.
* `decodeOrFault_parity`: decoding, as far as the backslashes at the end decide it.
-/

namespace NormalAlgorithm

/-! ## Decoding piece by piece -/

theorem meanings_append (gs hs : List Glyph) :
    meanings (gs ++ hs) = (meanings gs).bind fun s => (meanings hs).map (s ++ ·) := by
  induction gs with
  | nil => simp [meanings]
  | cons g gs ih =>
    rw [List.cons_append, meanings, meanings, ih]
    cases g.meaning <;> cases meanings gs <;> simp [Function.comp_def]

/-- Behind a raw text that stands for something, decoding starts afresh. -/
theorem decode_append {s u : Text} (h : decode s = some u) (t : Text) :
    decode (s ++ t) = (decode t).map (u ++ ·) := by
  have hcomplete : .dangling ∉ glyphs s := exists_decode_iff.mp ⟨u, h⟩
  rw [decode, glyphs_append hcomplete, meanings_append, ← decode, h, Option.bind_some, ← decode]

theorem decodeOrFault_append {s u : Text} (h : decode s = some u) (t : Text) :
    decodeOrFault (s ++ t) = (decodeOrFault t).map (u ++ ·) := by
  rw [decodeOrFault, decode_append h, decodeOrFault]
  cases decode t <;> rfl

theorem decode_singleton {c : Char} (hc : c ≠ '\\') : decode [c] = some [c] := by
  rw [decode, glyphs_bare hc]
  rfl

theorem decode_escape (c : Char) :
    decode ['\\', c] = some [if c = 'n' then '\n' else c] := by
  rw [decode, glyphs_escaped]
  rfl

/-- A text without backslashes stands for itself. -/
theorem decode_of_notMem {t : Text} (h : '\\' ∉ t) : decode t = some t := by
  induction t with
  | nil => rfl
  | cons c t ih =>
    rw [List.mem_cons, not_or] at h
    have hbehind : decode (c :: t) = (decode t).map ([c] ++ ·) :=
      decode_append (decode_singleton (Ne.symm h.1)) t
    rw [hbehind, ih h.2]
    rfl

/-! ## Backslashes at the end -/

section

variable {t : Text}

theorem decodeOrFault_eq_dangling_iff :
    decodeOrFault t = .error .danglingBackslash ↔ Odd (trailingBackslashes t) := by
  rw [decodeOrFault_eq_error_iff, and_iff_left rfl, decode_eq_none_iff, dangling_mem_glyphs_iff]

theorem exists_decodeOrFault_iff :
    (∃ u, decodeOrFault t = .ok u) ↔ Even (trailingBackslashes t) := by
  simp only [decodeOrFault_eq_ok_iff]
  rw [exists_decode_iff, complete_iff]

theorem trailingBackslashes_concat (t : Text) :
    trailingBackslashes (t ++ ['\\']) = trailingBackslashes t + 1 := by
  rw [trailingBackslashes, List.rtakeWhile_concat_pos _ _ _ (by decide), List.length_append,
    List.length_singleton, ← trailingBackslashes]

/-- One more backslash is a fault, unless it makes a pair with the last one. -/
theorem decodeOrFault_concat_backslash_iff :
    decodeOrFault (t ++ ['\\']) = .error .danglingBackslash ↔ Even (trailingBackslashes t) := by
  rw [decodeOrFault_eq_dangling_iff, trailingBackslashes_concat, Nat.odd_add_one,
    Nat.not_odd_iff_even]

/-- Behind a backslash that is left over, one more is no fault. -/
example : decodeOrFault ("a\\".toList ++ "\\".toList) = .ok "a\\".toList := rfl

/-- A raw text can be decoded apart from what follows it, whatever that is, exactly if it stands for
    something. -/
theorem decodeOrFault_append_iff :
    (∀ behind, decodeOrFault (t ++ behind) = do
      let u ← decodeOrFault t
      let v ← decodeOrFault behind
      return u ++ v) ↔ Even (trailingBackslashes t) := by
  constructor
  · intro h
    by_contra hodd
    have hfault : decodeOrFault t = .error .danglingBackslash :=
      decodeOrFault_eq_dangling_iff.mpr (Nat.not_even_iff_odd.mp hodd)
    -- With one more backslash the whole stands for something, though its front does not.
    have hpaired := h ['\\']
    rw [hfault] at hpaired
    exact hodd (decodeOrFault_concat_backslash_iff.mp hpaired)
  · intro heven behind
    obtain ⟨u, hu⟩ := exists_decodeOrFault_iff.mpr heven
    rw [decodeOrFault_append (decodeOrFault_eq_ok_iff.mp hu), hu]
    cases decodeOrFault behind <;> rfl

end

/-- **Only a backslash without a partner at the end is a fault.** Decoding has the fault of a
    dangling backslash exactly if the raw text ends in an odd number of backslashes, and otherwise
    gives a text: the same one if there is no backslash in it, and one character if it is a single
    escape. Wherever a raw text is divided, if the front does not end in an odd number of
    backslashes, both parts can be decoded one after the other, and the whole stands for what they
    stand for. -/
theorem decodeOrFault_parity (s : Text) :
    (decodeOrFault s = .error .danglingBackslash ↔ Odd (trailingBackslashes s)) ∧
    (¬ Odd (trailingBackslashes s) → ∃ t, decodeOrFault s = .ok t) ∧
    ('\\' ∉ s → decodeOrFault s = .ok s) ∧
    (∀ c, s = ['\\', c] → decodeOrFault s = .ok [if c = 'n' then '\n' else c]) ∧
    ∀ a b, s = a ++ b → ¬ Odd (trailingBackslashes a) →
      decodeOrFault s = do
        let u ← decodeOrFault a
        let v ← decodeOrFault b
        return u ++ v := by
  refine ⟨decodeOrFault_eq_dangling_iff, fun h => ?_, fun h => ?_, ?_, ?_⟩
  · exact exists_decodeOrFault_iff.mpr (Nat.not_odd_iff_even.mp h)
  · exact decodeOrFault_eq_ok_iff.mpr (decode_of_notMem h)
  · rintro c rfl
    exact decodeOrFault_eq_ok_iff.mpr (decode_escape c)
  · rintro a b rfl ha
    exact decodeOrFault_append_iff.mpr (Nat.not_odd_iff_even.mp ha) b

end NormalAlgorithm
