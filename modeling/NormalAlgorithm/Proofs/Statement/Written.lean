import NormalAlgorithm.Rule
import NormalAlgorithm.Proofs.Fallible
import NormalAlgorithm.Proofs.Escape.Sealed
import Mathlib.Tactic.SplitIfs

/-!
# Written rules

A rule is written down as a statement: each piece of its key and value is encoded, the pieces are
joined by percent signs, an equals sign stands between key and value, and the keyword stands in
front. Reading the statement gives the rule back, with one exception. What stands in front of a
key is looked at before anything is decoded, so that a plain rule whose key starts with three
lowercase letters and a space is not read as a plain rule.

Results:
* `compile_raw`: key and value are read back, piece by piece.
* `startsWithWord_encodePieces`: encoding puts no word in front of a key.
* `read_word`, `read_statement`: what is read with a word in front of the key, and without.
-/

namespace NormalAlgorithm

/-! ## Writing a rule -/

namespace RuleKind

/-- What stands in front of the key of a rule: its keyword and a space, or nothing. -/
def announcement (kind : RuleKind) : Text :=
  match kind.keyword? with
  | none => []
  | some word => word ++ [' ']

end RuleKind

/-- The rule as it is written, with its keyword. -/
def RawRule.statement (r : RawRule) : Text := r.kind.announcement ++ r.text

/-- Encoded pieces with percent signs between them. -/
def encodePieces (p : Pieces) : Text := (p.map encode).joinWith ['%']

/-- The raw rule that stands for a rule. -/
def Rule.raw (r : Rule) : RawRule := ⟨r.kind, encodePieces r.key, encodePieces r.value⟩

/-! ## Pieces -/

theorem decodeOrFault_encode (t : Text) : decodeOrFault (encode t) = .ok t :=
  decodeOrFault_eq_ok_iff.mpr (decode_encode t)

theorem isSpecial_of_endsStatement {c : Char} (h : endsStatement c = true) :
    c = '\n' ∨ isSpecial c = true := by
  simp only [endsStatement, Bool.or_eq_true, decide_eq_true_eq] at h
  rcases h with rfl | rfl
  · exact .inr rfl
  · exact .inl rfl

/-- Encoded pieces are sealed against everything special but the percent sign. -/
theorem sealed_encodePieces {isSeparator : Char → Bool}
    (h : ∀ c, isSeparator c = true → c = '\n' ∨ isSpecial c = true)
    (hpercent : isSeparator '%' = false) (p : Pieces) : Sealed isSeparator (encodePieces p) :=
  sealed_joinWith (.cons (by decide) hpercent .nil) (sealed_map_encode h p)

theorem decodePieces_encodePieces (p : Pieces) : decodePieces (encodePieces p) = .ok p := by
  have hsplit : split (· = '%') (encodePieces p) = p.map encode :=
    split_joinWith (by decide) (by decide) (sealed_map_encode (isSpecial_of_eq rfl) p)
  have hrest : (p.rest.map encode).mapM decodeOrFault = .ok p.rest :=
    mapM_map_eq_ok decodeOrFault_encode p.rest
  rw [decodePieces, hsplit, Pieces.mapM, Pieces.map, decodeOrFault_encode]
  simp only [bind, Except.bind, hrest]
  rfl

/-- The raw rule that stands for a rule is compiled to the rule. -/
theorem compile_raw (r : Rule) : r.raw.compile = .ok r :=
  RawRule.compile_eq_ok_iff.mpr
    ⟨rfl, decodePieces_encodePieces r.key, decodePieces_encodePieces r.value⟩

/-! ## Words in front of a key -/

/-- Three lowercase letters and a space stand at the beginning. -/
def StartsWithWord (t : Text) : Prop :=
  ∃ a b c rest, t = a :: b :: c :: ' ' :: rest ∧
    a.isLower = true ∧ b.isLower = true ∧ c.isLower = true

theorem cutWord?_eq_some_iff {t word key : Text} :
    cutWord? t = some (word, key) ↔
      ∃ a b c, t = a :: b :: c :: ' ' :: key ∧ word = [a, b, c] ∧
        a.isLower = true ∧ b.isLower = true ∧ c.isLower = true := by
  constructor
  · intro h
    unfold cutWord? at h
    split at h
    · rename_i a b c key'
      split_ifs at h with hlower
      cases h
      simp only [Bool.and_eq_true] at hlower
      exact ⟨a, b, c, rfl, rfl, hlower.1.1, hlower.1.2, hlower.2⟩
    · cases h
  · rintro ⟨a, b, c, rfl, rfl, ha, hb, hc⟩
    simp [cutWord?, ha, hb, hc]

theorem cutWord?_eq_none_iff {t : Text} : cutWord? t = none ↔ ¬ StartsWithWord t := by
  rw [Option.eq_none_iff_forall_ne_some, Prod.forall]
  constructor
  · rintro h ⟨a, b, c, key, ht, hlower⟩
    exact h [a, b, c] key (cutWord?_eq_some_iff.mpr ⟨a, b, c, ht, rfl, hlower⟩)
  · intro h word key hcut
    obtain ⟨a, b, c, ht, -, hlower⟩ := cutWord?_eq_some_iff.mp hcut
    exact h ⟨a, b, c, key, ht, hlower⟩

/-- A character that is written bare, in front of the encoded rest. -/
theorem encode_append_eq_cons {t u v : Text} {a : Char} (h : encode t ++ u = a :: v)
    (hescape : a ≠ '\\') (hu : u.head? ≠ some a) : ∃ t', t = a :: t' ∧ encode t' ++ u = v := by
  cases t with
  | nil =>
    rw [show u = a :: v from h] at hu
    exact absurd rfl hu
  | cons c t =>
    rw [encode, List.flatMap_cons, ← encode] at h
    unfold Glyph.ofChar at h
    split_ifs at h with hline hspecial
    · exact absurd (List.cons.inj h).1.symm hescape
    · exact absurd (List.cons.inj h).1.symm hescape
    · obtain ⟨rfl, hrest⟩ := List.cons.inj h
      exact ⟨t, rfl, hrest⟩

theorem ne_of_isLower {a b : Char} (ha : a.isLower = true) (hb : b.isLower = false) : a ≠ b := by
  rintro rfl
  rw [ha] at hb
  cases hb

theorem encode_cons {c : Char} (hline : c ≠ '\n') (hspecial : isSpecial c = false) (t : Text) :
    encode (c :: t) = c :: encode t := by
  rw [encode, List.flatMap_cons, ← encode, Glyph.ofChar, if_neg hline, hspecial]
  rfl

theorem isSpecial_of_isLower {c : Char} (h : c.isLower = true) : isSpecial c = false := by
  simp only [isSpecial, Bool.or_eq_false_iff, decide_eq_false_iff_not]
  refine ⟨⟨⟨⟨⟨⟨?_, ?_⟩, ?_⟩, ?_⟩, ?_⟩, ?_⟩, ?_⟩ <;> exact ne_of_isLower h rfl

/-- A word in front of a text is left as it is. -/
theorem encode_word {a b c : Char} (ha : a.isLower = true) (hb : b.isLower = true)
    (hc : c.isLower = true) (t : Text) :
    encode (a :: b :: c :: ' ' :: t) = a :: b :: c :: ' ' :: encode t := by
  rw [encode_cons (ne_of_isLower ha rfl) (isSpecial_of_isLower ha),
    encode_cons (ne_of_isLower hb rfl) (isSpecial_of_isLower hb),
    encode_cons (ne_of_isLower hc rfl) (isSpecial_of_isLower hc),
    encode_cons (by decide) (by decide)]

/-- Encoding puts no word in front of a text, also when a percent sign follows. -/
theorem startsWithWord_of_encode {t u : Text} (h : StartsWithWord (encode t ++ u))
    (hu : u = [] ∨ u.head? = some '%') : StartsWithWord t := by
  obtain ⟨a, b, c, rest, htext, ha, hb, hc⟩ := h
  have hhead : ∀ x : Char, x ≠ '%' → u.head? ≠ some x := by
    rintro x hx heq
    rcases hu with rfl | hpercent
    · cases heq
    · exact hx (Option.some.inj (heq.symm.trans hpercent))
  have hlower : ∀ x : Char, x.isLower = true → x ≠ '\\' ∧ u.head? ≠ some x := fun x hx =>
    ⟨ne_of_isLower hx rfl, hhead x (ne_of_isLower hx rfl)⟩
  obtain ⟨t₁, rfl, h₁⟩ := encode_append_eq_cons htext (hlower a ha).1 (hlower a ha).2
  obtain ⟨t₂, rfl, h₂⟩ := encode_append_eq_cons h₁ (hlower b hb).1 (hlower b hb).2
  obtain ⟨t₃, rfl, h₃⟩ := encode_append_eq_cons h₂ (hlower c hc).1 (hlower c hc).2
  obtain ⟨t₄, rfl, -⟩ := encode_append_eq_cons h₃ (by decide) (hhead ' ' (by decide))
  exact ⟨a, b, c, t₄, rfl, ha, hb, hc⟩

theorem startsWithWord_encodePieces {p : Pieces} (h : StartsWithWord (encodePieces p)) :
    StartsWithWord p.first := by
  obtain ⟨first, rest⟩ := p
  refine startsWithWord_of_encode h ?_
  cases rest with
  | nil => exact .inl rfl
  | cons t rest => exact .inr rfl

/-! ## Statements -/

theorem stripStart?_str_eq_none {key value : Text} (h : ¬ StartsWithWord key) :
    stripStart? "str ".toList (key ++ '=' :: value) = none := by
  refine stripStart?_eq_none_iff.mpr fun raw hraw => ?_
  have htext : key ++ '=' :: value = 's' :: 't' :: 'r' :: ' ' :: raw := hraw
  match key, htext with
  | [], htext => simp at htext
  | [a], htext => simp at htext
  | [a, b], htext => simp at htext
  | [a, b, c], htext => simp at htext
  | a :: b :: c :: d :: key, htext =>
    simp only [List.cons_append, List.cons.injEq] at htext
    obtain ⟨rfl, rfl, rfl, rfl, -⟩ := htext
    exact h ⟨'s', 't', 'r', key, rfl, rfl, rfl, rfl⟩

/-- A key with a word in front, other than the word of the initial text. -/
theorem read_word {a b c : Char} {key : Text} (ha : a.isLower = true) (hb : b.isLower = true)
    (hc : c.isLower = true) (hstr : [a, b, c] ≠ "str".toList) (hkey : Sealed (· = '=') key)
    (value : Text) :
    Statement.read (a :: b :: c :: ' ' :: key ++ '=' :: value) =
      Statement.ofWord [a, b, c] key value := by
  have hstrip : stripStart? "str ".toList (a :: b :: c :: ' ' :: key ++ '=' :: value) = none := by
    refine stripStart?_eq_none_iff.mpr fun raw hraw => ?_
    have htext : a :: b :: c :: ' ' :: key ++ '=' :: value = 's' :: 't' :: 'r' :: ' ' :: raw := hraw
    simp only [List.cons_append, List.cons.injEq] at htext
    obtain ⟨rfl, rfl, rfl, -⟩ := htext
    exact hstr rfl
  have hlower : ∀ x : Char, x.isLower = true → x ≠ '\\' ∧ decide (x = '=') = false := fun x hx =>
    ⟨ne_of_isLower hx rfl, decide_eq_false (ne_of_isLower hx rfl)⟩
  have hsealed : Sealed (· = '=') (a :: b :: c :: ' ' :: key) :=
    .cons (hlower a ha).1 (hlower a ha).2 (.cons (hlower b hb).1 (hlower b hb).2
      (.cons (hlower c hc).1 (hlower c hc).2 (.cons (by decide) rfl hkey)))
  rw [Statement.read, hstrip, cutAt?_of_sealed hsealed (by decide)]
  simp only [Statement.ofKeyValue,
    cutWord?_eq_some_iff.mpr ⟨a, b, c, rfl, rfl, ha, hb, hc⟩]

/-- A rule as it is written is read as this rule, if no word stands in front of its key. -/
theorem read_statement {r : RawRule} (hkey : Sealed (· = '=') r.key)
    (hword : r.kind = .plain → ¬ StartsWithWord r.key) : Statement.read r.statement = .rule r := by
  obtain ⟨kind, key, value⟩ := r
  have htext : (RawRule.mk kind key value).text = key ++ '=' :: value := by simp [RawRule.text]
  rw [RawRule.statement, htext]
  cases kind with
  | plain =>
    have hcut : cutAt? '=' (key ++ '=' :: value) = some (key, value) :=
      cutAt?_of_sealed hkey (by decide) value
    rw [show RuleKind.announcement .plain = [] from rfl, List.nil_append, Statement.read,
      stripStart?_str_eq_none (hword rfl), hcut]
    simp only [Statement.ofKeyValue, cutWord?_eq_none_iff.mpr (hword rfl)]
  | final => exact read_word (a := 'f') (b := 'i') (c := 'n') rfl rfl rfl (by decide) hkey value
  | character => exact read_word (a := 'c') (b := 'h') (c := 'r') rfl rfl rfl (by decide) hkey value
  | codePoint => exact read_word (a := 'o') (b := 'r') (c := 'd') rfl rfl rfl (by decide) hkey value

end NormalAlgorithm
