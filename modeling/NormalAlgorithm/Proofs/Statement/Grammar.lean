import NormalAlgorithm.Proofs.Escape.Cuts
import NormalAlgorithm.Proofs.Statement.Written

/-!
# The grammar of statements

Reading a statement is a sequence of tests: for the words of the initial text, for an equals sign,
for a word in front of the key, and for the meaning of this word. The grammar says which texts are
statements of which meaning, without tests and without an order among them. Every text has exactly
one meaning.

Results:
* `Statement.read_eq_iff`: statements are read by their grammar.
* `Statement.sealed_token`: the token of a directive is sealed against the equals sign.
-/

namespace NormalAlgorithm

/-! ## The grammar -/

/-- Three lowercase letters. -/
def IsWord (word : Text) : Prop :=
  ∃ a b c : Char, word = [a, b, c] ∧ a.isLower = true ∧ b.isLower = true ∧ c.isLower = true

/-- The words that have a meaning. -/
def reservedWords : List Text := ["str", "rep", "for", "fin", "chr", "ord"].map String.toList

/-- The text is a statement of this meaning. -/
inductive Statement.Means : Text → Statement → Prop
  /-- The word of the initial text, a space, and the initial text. -/
  | initial (raw : Text) : Means ("str ".toList ++ raw) (.initial raw)
  /-- A key without a word in front, and a value. -/
  | plain {key value : Text} (noWord : ¬ StartsWithWord key) (closed : Sealed (· = '=') key) :
    Means (key ++ '=' :: value) (.rule ⟨.plain, key, value⟩)
  /-- A keyword, a key and a value. -/
  | keyword {kind : RuleKind} {word key value : Text} (announces : kind.keyword? = some word)
      (closed : Sealed (· = '=') key) :
    Means (word ++ ' ' :: key ++ '=' :: value) (.rule ⟨kind, key, value⟩)
  /-- The word of a directive, a token and its values. -/
  | directive {word token values : Text} (announces : word = "rep".toList ∨ word = "for".toList)
      (closed : Sealed (· = '=') token) :
    Means (word ++ ' ' :: token ++ '=' :: values) (.directive ⟨token, values⟩)
  /-- A word without a meaning, a key and a value. -/
  | unknown {word key value : Text} (isWord : IsWord word) (strange : word ∉ reservedWords)
      (closed : Sealed (· = '=') key) :
    Means (word ++ ' ' :: key ++ '=' :: value) (.unknown word)
  /-- Neither an initial text nor anything with an equals sign. -/
  | comment {t : Text} (noInitial : ∀ raw, t ≠ "str ".toList ++ raw)
      (noEquals : .bare '=' ∉ glyphs t) : Means t .comment

/-! ## Words -/

theorem Sealed.tail {isSeparator : Char → Bool} {c : Char} {t : Text} (hc : c ≠ '\\')
    (h : Sealed isSeparator (c :: t)) : Sealed isSeparator t := by
  intro g hg
  exact h g (by rw [glyphs_bare hc]; exact List.mem_cons_of_mem _ hg)

theorem Sealed.behind_word {a b c : Char} {key : Text} (ha : a.isLower = true)
    (hb : b.isLower = true) (hc : c.isLower = true)
    (h : Sealed (· = '=') (a :: b :: c :: ' ' :: key)) : Sealed (· = '=') key :=
  (((h.tail (ne_of_isLower ha rfl)).tail (ne_of_isLower hb rfl)).tail
    (ne_of_isLower hc rfl)).tail (by decide)

theorem RuleKind.ofKeyword?_eq_some_iff {word : Text} {kind : RuleKind} :
    ofKeyword? word = some kind ↔ kind.keyword? = some word := by
  constructor
  · intro h
    unfold ofKeyword? at h
    split_ifs at h with hfinal hcharacter hcodePoint <;> cases h
    · exact congrArg some hfinal.symm
    · exact congrArg some hcharacter.symm
    · exact congrArg some hcodePoint.symm
  · exact ofKeyword?_keyword

theorem isDirectiveWord_iff {word : Text} :
    isDirectiveWord word = true ↔ word = "rep".toList ∨ word = "for".toList := by
  simp [isDirectiveWord]

namespace Statement

variable {t word key value : Text} {st : Statement}

/-- What is behind a word has the meaning that the word gives to it. -/
theorem means_ofWord (hword : IsWord word) (hstr : word ≠ "str".toList)
    (hkey : Sealed (· = '=') key) :
    Means (word ++ ' ' :: key ++ '=' :: value) (ofWord word key value) := by
  rw [ofWord]
  split
  · rename_i hdirective
    exact .directive (isDirectiveWord_iff.mp hdirective) hkey
  · rename_i hdirective
    split
    · rename_i kind hkind
      exact .keyword (RuleKind.ofKeyword?_eq_some_iff.mp hkind) hkey
    · rename_i hkind
      refine .unknown hword ?_ hkey
      -- Every word that has a meaning would have been taken before.
      intro hreserved
      simp only [reservedWords, List.map_cons, List.map_nil, List.mem_cons, List.not_mem_nil,
        or_false] at hreserved
      rcases hreserved with rfl | rfl | rfl | rfl | rfl | rfl
      · exact hstr rfl
      · exact hdirective rfl
      · exact hdirective rfl
      · cases hkind
      · cases hkind
      · cases hkind

theorem ofWord_of_strange (h : word ∉ reservedWords) : ofWord word key value = .unknown word := by
  have hne : ∀ reserved ∈ reservedWords, word ≠ reserved := fun reserved hmem heq => h (heq ▸ hmem)
  simp only [reservedWords, List.map_cons, List.map_nil, List.forall_mem_cons] at hne
  obtain ⟨-, hrep, hfor, hfin, hchr, hord, -⟩ := hne
  have hdirective : isDirectiveWord word = false :=
    Bool.eq_false_iff.mpr fun h => (isDirectiveWord_iff.mp h).elim hrep hfor
  have hkind : RuleKind.ofKeyword? word = none := by
    rw [RuleKind.ofKeyword?, if_neg hfin, if_neg hchr, if_neg hord]
  rw [ofWord, hdirective, hkind]
  rfl

/-! ## Reading -/

theorem means_read (t : Text) : Means t (read t) := by
  rw [read]
  cases hstrip : stripStart? "str ".toList t with
  | some raw =>
    obtain rfl := stripStart?_eq_some_iff.mp hstrip
    exact .initial raw
  | none =>
    have hinitial := stripStart?_eq_none_iff.mp hstrip
    cases hcut : cutAt? '=' t with
    | none => exact .comment hinitial (cutAt?_eq_none_iff.mp hcut)
    | some pair =>
      obtain ⟨key, value⟩ := pair
      obtain ⟨rfl, hkey⟩ := (cutAt?_eq_some_iff (by decide)).mp hcut
      simp only [ofKeyValue]
      cases hword : cutWord? key with
      | none => exact .plain (cutWord?_eq_none_iff.mp hword) hkey
      | some pair =>
        obtain ⟨word, key⟩ := pair
        obtain ⟨a, b, c, rfl, rfl, ha, hb, hc⟩ := cutWord?_eq_some_iff.mp hword
        refine means_ofWord ⟨a, b, c, rfl, ha, hb, hc⟩ (fun hstr => ?_) (hkey.behind_word ha hb hc)
        have hletters : [a, b, c, ' '] = "str ".toList := congrArg (· ++ [' ']) hstr
        exact hinitial (key ++ '=' :: value) (by rw [← hletters]; rfl)

theorem read_of_means (h : Means t st) : read t = st := by
  cases h with
  | initial raw => exact read_initial raw
  | @plain key value noWord closed =>
    have hread := read_statement (r := ⟨.plain, key, value⟩) closed fun _ => noWord
    simpa [RawRule.statement, RuleKind.announcement, RuleKind.keyword?, RawRule.text] using hread
  | @keyword kind word key value announces closed =>
    have hplain : kind = .plain → ¬ StartsWithWord key := by
      rintro rfl
      cases announces
    have hread := read_statement (r := ⟨kind, key, value⟩) closed hplain
    simpa [RawRule.statement, RuleKind.announcement, announces, RawRule.text] using hread
  | @directive word token values announces closed =>
    rcases announces with rfl | rfl
    · exact read_word (a := 'r') (b := 'e') (c := 'p') rfl rfl rfl (by decide) closed values
    · exact read_word (a := 'f') (b := 'o') (c := 'r') rfl rfl rfl (by decide) closed values
  | @unknown word key value isWord strange closed =>
    obtain ⟨a, b, c, rfl, ha, hb, hc⟩ := isWord
    have hstr : [a, b, c] ≠ "str".toList := fun h => strange (h ▸ List.mem_cons_self)
    exact (read_word ha hb hc hstr closed value).trans (ofWord_of_strange strange)
  | comment noInitial noEquals =>
    exact read_comment_iff.mpr ⟨stripStart?_eq_none_iff.mpr noInitial, noEquals⟩

/-- **Statements are read by their grammar.** -/
theorem read_eq_iff : read t = st ↔ Means t st :=
  ⟨fun h => h ▸ means_read t, read_of_means⟩

theorem sealed_token {d : Directive} (h : read t = .directive d) : Sealed (· = '=') d.token := by
  cases read_eq_iff.mp h with
  | directive _ closed => exact closed

end Statement

end NormalAlgorithm
