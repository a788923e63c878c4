import NormalAlgorithm.Rule
import NormalAlgorithm.Proofs.Pattern.Leftmost

/-!
# Characters and their numbers

One kind of rule writes the number of a character, another the character of a number. Each undoes
the other: the numeral of a number is the only run of digits without a leading zero that stands for
it, and digit slots take just such runs. The character U+0000 is left out, since the numeral of its
number is a zero.

A numeral can be of any length. It does not matter whether its number is computed first and compared
with the greatest number of a character then, or whether it is read in 32 bits and given up as soon
as it does not fit.

Results:
* `decimal_ofDigitChars`: a run of digits without a leading zero is the numeral of its number.
* `takes_decimal`: the numeral of a number other than zero is taken by a digit slot.
* `find?_digits_whole`: a digit slot on its own takes the whole of such a run.
* `render_character_eq_ok_iff`, `render_character_eq_error_iff`: the groups that are written as a
  character, and those that are not.
* `exists_render_character_takes_iff`: these groups, where they are runs of digits, by their number.
* `readWord?_bind_charOfNumber?`: reading in 32 bits.
* `render_character_codePoint`: both kinds of rules are inverse to each other.
-/

namespace NormalAlgorithm

/-! ## Runs of digits -/

theorem toNat_of_isDigit {c : Char} (h : c.isDigit = true) : 48 ≤ c.toNat ∧ c.toNat ≤ 57 := by
  simp only [Char.isDigit, Bool.and_eq_true, decide_eq_true_eq, ge_iff_le,
    UInt32.le_iff_toNat_le] at h
  exact h

/-- A digit is the one that its value is written as. -/
theorem digitChar_of_isDigit {c : Char} (h : c.isDigit = true) :
    Nat.digitChar (c.toNat - '0'.toNat) = c := by
  have hzero : '0'.toNat = 48 := rfl
  have hrange := toNat_of_isDigit h
  rw [← Char.toNat_inj, Nat.toNat_digitChar_of_lt_ten (by omega)]
  omega

/-- Digits behind the numeral of a number other than zero give a numeral again. -/
theorem decimal_append {n : Nat} (hn : 0 < n) {t : Text} (ht : ∀ c ∈ t, c.isDigit = true) :
    decimal n ++ t = decimal (Nat.ofDigitChars 10 t n) := by
  induction t generalizing n with
  | nil => simp
  | cons c t ih =>
    obtain ⟨hc, ht⟩ := List.forall_mem_cons.mp ht
    have hzero : '0'.toNat = 48 := rfl
    have hvalue : c.toNat - '0'.toNat < 10 := by
      have hrange := toNat_of_isDigit hc
      omega
    have hdigit : decimal (c.toNat - '0'.toNat) = [c] := by
      rw [decimal, Nat.toDigits_of_lt_base hvalue, digitChar_of_isDigit hc]
    calc decimal n ++ c :: t = (decimal n ++ decimal (c.toNat - '0'.toNat)) ++ t := by
          rw [hdigit, List.append_assoc, List.singleton_append]
      _ = decimal (10 * n + (c.toNat - '0'.toNat)) ++ t := by
          rw [decimal, decimal, Nat.toDigits_append_toDigits (by decide) hn hvalue, decimal]
      _ = decimal (Nat.ofDigitChars 10 (c :: t) n) := by
          rw [ih (by omega) ht, Nat.ofDigitChars_cons]

/-- A run of digits without a leading zero is the numeral of its number. -/
theorem decimal_ofDigitChars {d : Text} (h : Slot.digits.Takes d) :
    decimal (Nat.ofDigitChars 10 d 0) = d := by
  obtain ⟨hne, hdigits, hhead⟩ := h
  cases d with
  | nil => exact absurd rfl hne
  | cons c t =>
    obtain ⟨hc, ht⟩ := List.forall_mem_cons.mp hdigits
    have hrange := toNat_of_isDigit hc
    have hzero : '0'.toNat = 48 := rfl
    have hcne : c.toNat ≠ 48 := fun heq => hhead (congrArg some (Char.toNat_inj.mp heq))
    have hdigit : decimal (c.toNat - '0'.toNat) = [c] := by
      rw [decimal, Nat.toDigits_of_lt_base (by omega), digitChar_of_isDigit hc]
    rw [Nat.ofDigitChars_cons, Nat.mul_zero, Nat.zero_add, ← decimal_append (by omega) ht, hdigit,
      List.singleton_append]

theorem decimal_head?_ne {n : Nat} (hn : 0 < n) : (decimal n).head? ≠ some '0' := by
  induction n using Nat.strongRecOn with
  | ind n ih =>
    rw [decimal, Nat.toDigits_eq_if (by decide)]
    split
    · rename_i hlt
      rw [List.head?_cons, ne_eq, Option.some.injEq, ← Char.toNat_inj,
        Nat.toNat_digitChar_of_lt_ten hlt]
      have hzero : '0'.toNat = 48 := rfl
      omega
    · have hfront := ih (n / 10) (by omega) (by omega)
      obtain ⟨c, u, hdigits⟩ : ∃ c u, decimal (n / 10) = c :: u :=
        List.exists_cons_of_ne_nil Nat.toDigits_ne_nil
      rw [hdigits] at hfront
      rw [← decimal, hdigits]
      exact hfront

/-- The numeral of a number other than zero is what a digit slot takes. -/
theorem takes_decimal {n : Nat} (hn : 0 < n) : Slot.digits.Takes (decimal n) :=
  ⟨Nat.toDigits_ne_nil, fun _ => Nat.isDigit_of_mem_toDigits (by decide) (by decide),
    decimal_head?_ne hn⟩

theorem readDecimal?_of_takes {d : Text} (h : Slot.digits.Takes d) :
    readDecimal? d = some (Nat.ofDigitChars 10 d 0) := by
  obtain ⟨hne, hdigits, -⟩ := h
  rw [readDecimal?, if_pos]
  simpa [List.isEmpty_iff] using ⟨hne, hdigits⟩

/-- A digit slot with nothing around it takes the whole of a run. -/
theorem find?_digits_whole {d : Text} (h : Slot.digits.Takes d) :
    Pattern.find? ⟨.digits, ⟨[], [[]]⟩⟩ d = some ⟨[], [d], []⟩ := by
  refine Pattern.find?_eq_some_iff.mpr ⟨⟨?_, rfl, ?_⟩, fun m' _ => Nat.zero_le _, ?_⟩
  · simp [weave]
  · simpa using h
  · rintro ⟨before, groups, after⟩ ⟨htext, hlength, -⟩ hbefore
    obtain rfl : before = [] := List.eq_nil_of_length_eq_zero hbefore
    obtain ⟨g, rfl⟩ := List.length_eq_one_iff.mp hlength
    have hsplit : d = g ++ after := by simpa [weave] using htext
    cases after with
    | nil =>
      rw [List.append_nil] at hsplit
      exact .inl (by rw [hsplit])
    | cons c after =>
      refine .inr (.rel ?_)
      rw [hsplit]
      simp

/-! ## Characters -/

theorem charOfNumber?_eq_some_iff {n : Nat} {c : Char} :
    charOfNumber? n = some c ↔ c.toNat = n := by
  by_cases hvalid : n.isValidChar
  · have hnumber : (Char.ofNatAux n hvalid).toNat = n := rfl
    rw [charOfNumber?, dif_pos hvalid, Option.some.injEq, ← Char.toNat_inj, hnumber, eq_comm]
  · rw [charOfNumber?, dif_neg hvalid]
    refine ⟨nofun, ?_⟩
    rintro rfl
    exact absurd c.valid hvalid

/-- The numbers of characters are those up to the greatest one that are not kept for surrogates. -/
theorem exists_charOfNumber?_iff {n : Nat} :
    (∃ c, charOfNumber? n = some c) ↔ n ≤ 0x10FFFF ∧ ¬ (0xD800 ≤ n ∧ n ≤ 0xDFFF) := by
  have hvalid : n.isValidChar ↔ n ≤ 0x10FFFF ∧ ¬ (0xD800 ≤ n ∧ n ≤ 0xDFFF) := by
    unfold Nat.isValidChar
    omega
  rw [← hvalid]
  constructor
  · rintro ⟨c, hc⟩
    rw [← charOfNumber?_eq_some_iff.mp hc]
    exact c.valid
  · intro h
    exact ⟨_, dif_pos h⟩

/-- The text is a numeral only in the form in which numbers are written. -/
def Canonical (g : Text) : Prop := ∀ n, readDecimal? g = some n → decimal n = g

theorem canonical_of_takes {d : Text} (h : Slot.digits.Takes d) : Canonical d := by
  intro n hn
  rw [readDecimal?_of_takes h] at hn
  rw [← Option.some.inj hn, decimal_ofDigitChars h]

theorem readCharacter_eq_some_iff {g : Text} (h : Canonical g) {c : Char} :
    (readDecimal? g).bind charOfNumber? = some c ↔ g = decimal c.toNat := by
  rw [Option.bind_eq_some_iff]
  constructor
  · rintro ⟨n, hread, hchar⟩
    rw [charOfNumber?_eq_some_iff.mp hchar, h n hread]
  · rintro rfl
    exact ⟨c.toNat, readDecimal?_decimal c.toNat, charOfNumber?_eq_some_iff.mpr rfl⟩

theorem render_character_eq_ok_iff {g t : Text} (h : Canonical g) :
    RuleKind.character.render g = .ok t ↔ ∃ c : Char, g = decimal c.toNat ∧ t = [c] := by
  simp only [← readCharacter_eq_some_iff h, RuleKind.render]
  cases (readDecimal? g).bind charOfNumber? <;> simp [eq_comm]

theorem render_character_eq_error_iff {g : Text} {f : Fault} (h : Canonical g) :
    RuleKind.character.render g = .error f ↔
      (∀ c : Char, g ≠ decimal c.toNat) ∧ f = .notACharacter g := by
  simp only [ne_eq, ← readCharacter_eq_some_iff h, RuleKind.render]
  cases (readDecimal? g).bind charOfNumber? <;> simp [eq_comm]

/-- The runs of digits that are written as a character, by their number. -/
theorem exists_render_character_takes_iff {d : Text} (h : Slot.digits.Takes d) :
    (∃ t, RuleKind.character.render d = .ok t) ↔ Nat.ofDigitChars 10 d 0 ≤ 0x10FFFF ∧
      ¬ (0xD800 ≤ Nat.ofDigitChars 10 d 0 ∧ Nat.ofDigitChars 10 d 0 ≤ 0xDFFF) := by
  have hcanonical := canonical_of_takes h
  rw [← exists_charOfNumber?_iff]
  constructor
  · rintro ⟨t, ht⟩
    obtain ⟨c, hc, rfl⟩ := (render_character_eq_ok_iff hcanonical).mp ht
    have hchar := (readCharacter_eq_some_iff hcanonical).mpr hc
    rw [readDecimal?_of_takes h] at hchar
    exact ⟨c, hchar⟩
  · rintro ⟨c, hc⟩
    refine ⟨[c], (render_character_eq_ok_iff hcanonical).mpr ⟨c, ?_, rfl⟩⟩
    rw [charOfNumber?_eq_some_iff.mp hc, decimal_ofDigitChars h]

/-! ## Reading in 32 bits -/

/-- A number of 32 bits with one more digit behind it, if it still fits. -/
def pushDigit? (n : UInt32) (c : Char) : Option UInt32 :=
  let next := 10 * n.toNat + (c.toNat - '0'.toNat)
  if h : next < UInt32.size then some (UInt32.ofNatLT next h) else none

/-- The number of a run of digits, read from left to right in 32 bits. -/
def readWord? (t : Text) : Option UInt32 := t.foldlM pushDigit? 0

theorem le_ofDigitChars (t : Text) (n : Nat) : n ≤ Nat.ofDigitChars 10 t n := by
  induction t generalizing n with
  | nil => exact Nat.le_refl n
  | cons c t ih =>
    rw [Nat.ofDigitChars_cons]
    exact Nat.le_trans (by omega) (ih (10 * n + (c.toNat - '0'.toNat)))

/-- What was read is the number if it fits, and nothing otherwise. -/
theorem foldlM_pushDigit? (t : Text) (n : UInt32) :
    (t.foldlM pushDigit? n).map UInt32.toNat =
      if Nat.ofDigitChars 10 t n.toNat < UInt32.size then some (Nat.ofDigitChars 10 t n.toNat)
      else none := by
  induction t generalizing n with
  | nil => simp [UInt32.toNat_lt_size]
  | cons c t ih =>
    rw [List.foldlM_cons, Nat.ofDigitChars_cons, pushDigit?]
    by_cases hfits : 10 * n.toNat + (c.toNat - '0'.toNat) < UInt32.size
    · rw [dif_pos hfits]
      exact ih (UInt32.ofNatLT _ hfits)
    · -- further digits only make the number greater
      have hle := le_ofDigitChars t (10 * n.toNat + (c.toNat - '0'.toNat))
      rw [dif_neg hfits, if_neg (by omega)]
      rfl

/-- The number of a character fits into 32 bits, so that nothing is lost by giving up. -/
theorem readWord?_bind_charOfNumber? {d : Text} (h : Slot.digits.Takes d) :
    (readWord? d).bind (fun w => charOfNumber? w.toNat) = (readDecimal? d).bind charOfNumber? := by
  have hmap : (readWord? d).bind (fun w => charOfNumber? w.toNat) =
      ((readWord? d).map UInt32.toNat).bind charOfNumber? := by
    rw [Option.bind_map]
    rfl
  rw [hmap, readWord?, foldlM_pushDigit?, readDecimal?_of_takes h]
  split
  · rfl
  · rename_i hlarge
    have hnone : charOfNumber? (Nat.ofDigitChars 10 d 0) = none := by
      refine Option.eq_none_iff_forall_ne_some.mpr fun c hc => hlarge ?_
      exact Nat.lt_of_le_of_lt (exists_charOfNumber?_iff.mp ⟨c, hc⟩).1 (by decide)
    rw [Option.bind_some, hnone]
    rfl

/-! ## There and back -/

/-- **Numbers of characters and characters of numbers are inverse to each other.** The number of a
    character other than U+0000 is written as a run of digits without a leading zero. A slot of a
    rule that writes characters takes the whole of it, and it is written as the character again. Of
    the runs of digits without a leading zero, of whatever length, those are written as a character
    whose number is that of one; the number of this character is then written as the run it came
    from. All others are refused by name. Reading them in 32 bits makes no difference. -/
theorem render_character_codePoint :
    (∀ c : Char, c ≠ '\x00' → ∃ d, RuleKind.codePoint.render [c] = .ok d ∧
      RuleKind.character.slot.Takes d ∧
      Pattern.find? ⟨RuleKind.character.slot, ⟨[], [[]]⟩⟩ d = some ⟨[], [d], []⟩ ∧
      RuleKind.character.render d = .ok [c]) ∧
    ∀ d, Slot.digits.Takes d →
      ((∃ t, RuleKind.character.render d = .ok t) ↔ Nat.ofDigitChars 10 d 0 ≤ 0x10FFFF ∧
        ¬ (0xD800 ≤ Nat.ofDigitChars 10 d 0 ∧ Nat.ofDigitChars 10 d 0 ≤ 0xDFFF)) ∧
      (∀ t, RuleKind.character.render d = .ok t →
        ∃ c : Char, t = [c] ∧ RuleKind.codePoint.render [c] = .ok d) ∧
      ((¬ ∃ t, RuleKind.character.render d = .ok t) →
        RuleKind.character.render d = .error (.notACharacter d)) ∧
      (readWord? d).bind (fun w => charOfNumber? w.toNat) =
        (readDecimal? d).bind charOfNumber? := by
  constructor
  · intro c hc
    have hpositive : 0 < c.toNat :=
      Nat.pos_of_ne_zero fun hzero => hc (Char.toNat_inj.mp hzero)
    have htakes := takes_decimal hpositive
    refine ⟨decimal c.toNat, rfl, htakes, find?_digits_whole htakes, ?_⟩
    exact (render_character_eq_ok_iff (canonical_of_takes htakes)).mpr ⟨c, rfl, rfl⟩
  · intro d hd
    have hcanonical := canonical_of_takes hd
    refine ⟨exists_render_character_takes_iff hd, ?_, ?_, readWord?_bind_charOfNumber? hd⟩
    · intro t ht
      obtain ⟨c, rfl, rfl⟩ := (render_character_eq_ok_iff hcanonical).mp ht
      exact ⟨c, rfl, rfl⟩
    · intro hnone
      refine (render_character_eq_error_iff hcanonical).mpr ⟨fun c hc => ?_, rfl⟩
      exact hnone ⟨[c], (render_character_eq_ok_iff hcanonical).mpr ⟨c, hc, rfl⟩⟩

/-- A character beyond the first plane, and a run whose number would be that of `A` if it were cut
    down to 32 bits. -/
theorem render_character_codePoint_wide :
    '😀' ≠ '\x00' ∧ RuleKind.codePoint.render ['😀'] = .ok "128512".toList ∧
      RuleKind.character.render "128512".toList = .ok ['😀'] ∧
      Slot.digits.Takes "4294967361".toList ∧
      Nat.ofDigitChars 10 "4294967361".toList 0 % UInt32.size = 'A'.toNat ∧
      RuleKind.character.render "4294967361".toList =
        .error (.notACharacter "4294967361".toList) := by
  obtain ⟨hback, hruns⟩ := render_character_codePoint
  have hne : '😀' ≠ '\x00' := by decide
  obtain ⟨d, hwritten, -, -, hread⟩ := hback '😀' hne
  have hd : RuleKind.codePoint.render ['😀'] = .ok "128512".toList := rfl
  obtain rfl : d = "128512".toList := Except.ok.inj (hwritten.symm.trans hd)
  have htakes : Slot.digits.Takes "4294967361".toList := Slot.accepts_iff.mp rfl
  obtain ⟨hwritable, -, hrefused, -⟩ := hruns "4294967361".toList htakes
  refine ⟨hne, hd, hread, htakes, rfl, hrefused fun hexists => ?_⟩
  have hbound := (hwritable.mp hexists).1
  exact absurd hbound (by decide)

end NormalAlgorithm
