import NormalAlgorithm.Program
import NormalAlgorithm.Proofs.Statement.Written

/-!
# Printed programs

A program can be written down from its initial text and its rules: the statement of the initial
text comes first, and each rule stands behind a semicolon or a line feed.

Results:
* `statements_printProgram`: a printed program is cut into the statements it was printed from.
* `compile_printProgram`: a printed program is compiled to what it was printed from.
* `compile_key_value_iff`: which encoded texts can be the key of a program's only rule.
-/

namespace NormalAlgorithm

/-! ## Printing -/

/-- What stands between two statements. -/
inductive Separator where
  | semicolon
  | lineFeed
  deriving DecidableEq, Repr

/-- The character that separates. -/
def Separator.char : Separator → Char
  | .semicolon => ';'
  | .lineFeed => '\n'

/-- The text of a program: the statement of its initial text, and then its rules, each behind a
    separator. -/
def printProgram (initial : Text) (rules : List (Separator × Rule)) : Text :=
  "str ".toList ++ encode initial ++ rules.flatMap fun (separator, r) =>
    separator.char :: r.raw.statement

/-! ## Statements -/

theorem endsStatement_char (separator : Separator) :
    endsStatement separator.char = true ∧ separator.char ≠ '\\' := by
  cases separator <;> decide

/-- A written rule is one statement. -/
theorem sealed_statement (r : Rule) : Sealed endsStatement r.raw.statement := by
  have hannouncement : Sealed endsStatement r.kind.announcement := by
    cases r.kind <;> decide
  have hpieces := sealed_encodePieces (fun _ => isSpecial_of_endsStatement) rfl
  exact hannouncement.append (((hpieces r.key).append (.cons (by decide) rfl .nil)).append
    (hpieces r.value))

theorem read_raw_statement {r : Rule} (hword : r.kind = .plain → ¬ StartsWithWord r.key.first) :
    Statement.read r.raw.statement = .rule r.raw := by
  have hkey : Sealed (· = '=') r.raw.key := sealed_encodePieces (isSpecial_of_eq rfl) rfl r.key
  exact read_statement hkey fun hplain h => hword hplain (startsWithWord_encodePieces h)

theorem statements_of_sealed {t : Text} (h : Sealed endsStatement t) :
    statements t = [Statement.read t] := by
  rw [statements, split_bare h.not_separates]
  rfl

/-- The statements of a printed program are those it was printed from. -/
theorem statements_printProgram {initial : Text} {rules : List (Separator × Rule)}
    (hword : ∀ x ∈ rules, x.2.kind = .plain → ¬ StartsWithWord x.2.key.first) :
    statements (printProgram initial rules) =
      .initial (encode initial) :: (rules.map fun x => x.2.raw).map .rule := by
  have hinitial : Sealed endsStatement ("str ".toList ++ encode initial) :=
    .append (by decide) (sealed_encode (fun _ => isSpecial_of_endsStatement) initial)
  have hrules : ∀ x ∈ rules.map fun x => (x.1.char, x.2.raw.statement),
      endsStatement x.1 = true ∧ x.1 ≠ '\\' ∧ Sealed endsStatement x.2 := by
    intro x hx
    obtain ⟨⟨separator, r⟩, -, rfl⟩ := List.mem_map.mp hx
    exact ⟨(endsStatement_char separator).1, (endsStatement_char separator).2, sealed_statement r⟩
  have hsplit := split_interleave hinitial hrules
  rw [List.flatMap_map] at hsplit
  have hread : ∀ x ∈ rules, Statement.read x.2.raw.statement = .rule x.2.raw :=
    fun x hx => read_raw_statement (hword x hx)
  unfold statements printProgram
  rw [hsplit]
  simpa [Pieces.toList] using And.intro (Statement.read_initial (encode initial)) hread

/-! ## Sources -/

/-- Rules are added as long as there are not too many. -/
theorem addAll_rules {limits : Limits} {s : Source} {rs : List RawRule}
    (h : s.rules.length + rs.length ≤ limits.rules) :
    Source.addAll limits s (rs.map .rule) = .ok { s with rules := s.rules ++ rs } := by
  induction rs generalizing s with
  | nil => simp [Source.addAll, pure, Except.pure]
  | cons r rs ih =>
    rw [List.length_cons] at h
    have hadd : s.add limits (.rule r) = .ok { s with rules := s.rules ++ [r] } :=
      if_neg (by omega)
    have hrest := ih (s := { s with rules := s.rules ++ [r] })
      (by simp only [List.length_append, List.length_singleton]; omega)
    rw [List.map_cons, Source.addAll, List.foldlM_cons, hadd]
    simpa [Source.addAll, bind, Except.bind] using hrest

/-- Without directives, the rules of a source are compiled as they are written. -/
theorem compile_of_rules {limits : Limits} {t : Text} {s : Source} {rules : List Rule}
    (hread : Source.read limits t = .ok s) (hdirectives : s.directives = [])
    (hrules : s.rules = rules.map Rule.raw) :
    ∃ p, Program.compile limits t = .ok p ∧ p.initial = s.initial ∧ p.rules = rules := by
  have hexpand : expandAll limits.rules s.rules s.directives = .ok (rules.map Rule.raw) := by
    rw [hdirectives, hrules]
    rfl
  have hcompile : (rules.map Rule.raw).mapM RawRule.compile = .ok rules :=
    mapM_map_eq_ok compile_raw rules
  exact ⟨_, Program.compile_eq_ok.mpr ⟨s, _, rules, hread, hexpand, hcompile, rfl⟩, rfl, rfl⟩

/-! ## Whole programs -/

/-- **A printed program is compiled to what it was printed from.** No rule whose key starts with
    three lowercase letters and a space may be plain, and the rules and the initial text must be
    within the limits; then compiling succeeds, and the program has the initial text and the rules
    it was printed from, in the same order, with digit slots in the rules that write characters
    and no others, and with an end behind the final rules and no others. -/
theorem compile_printProgram {limits : Limits} {initial : Text} {rules : List (Separator × Rule)}
    (hword : ∀ x ∈ rules, x.2.kind = .plain → ¬ StartsWithWord x.2.key.first)
    (hrules : rules.length ≤ limits.rules) (hunits : units initial ≤ limits.units) :
    ∃ p, Program.compile limits (printProgram initial rules) = .ok p ∧ p.initial = initial ∧
      p.rules = rules.map Prod.snd ∧
      ∀ r ∈ p.rules, (r.pattern.slot = .digits ↔ r.kind = .character) ∧
        (r.isFinal = true ↔ r.kind = .final) := by
  have hadd : Source.addAll limits {} (statements (printProgram initial rules)) =
      .ok { initial? := some initial, rules := rules.map fun x => x.2.raw } := by
    rw [statements_printProgram hword, Source.addAll, List.foldlM_cons]
    have hinitial : Source.add limits {} (.initial (encode initial)) =
        .ok { initial? := some initial } := by
      simp [Source.add, decodeOrFault_encode, bind, Except.bind, pure, Except.pure]
    rw [hinitial]
    exact addAll_rules (s := { initial? := some initial }) (by simpa using hrules)
  have hread := Source.read_eq_ok.mpr ⟨hadd, hunits⟩
  have hraw : (rules.map fun x => x.2.raw) = (rules.map Prod.snd).map Rule.raw := by
    rw [List.map_map]
    rfl
  obtain ⟨p, hp, hpinitial, hprules⟩ := compile_of_rules hread rfl hraw
  refine ⟨p, hp, hpinitial, hprules, fun r _ => ?_⟩
  obtain ⟨kind, key, value⟩ := r
  cases kind <;> simp [Rule.pattern, RuleKind.slot, Rule.isFinal, RuleKind.isFinal]

/-- A plain rule whose key holds separators, and a final rule whose key starts with a word. -/
theorem compile_printProgram_special :
    ∃ p, Program.compile {} (printProgram "a;b\n".toList
        [(.lineFeed, ⟨.plain, ⟨";=\\".toList, ["%".toList]⟩, ⟨[], ["\n".toList]⟩⟩),
          (.semicolon, ⟨.final, ⟨"str a".toList, []⟩, ⟨[], []⟩⟩)]) = .ok p ∧
      p.initial = "a;b\n".toList ∧
      p.rules = [⟨.plain, ⟨";=\\".toList, ["%".toList]⟩, ⟨[], ["\n".toList]⟩⟩,
        ⟨.final, ⟨"str a".toList, []⟩, ⟨[], []⟩⟩] ∧
      ∀ r ∈ p.rules, (r.pattern.slot = .digits ↔ r.kind = .character) ∧
        (r.isFinal = true ↔ r.kind = .final) := by
  refine compile_printProgram ?_ (by decide) (by decide)
  rintro x hx hplain ⟨a, b, c, rest, hkey, -⟩
  simp only [List.mem_cons, List.not_mem_nil, or_false] at hx
  rcases hx with rfl | rfl
  · simp at hkey
  · cases hplain

/-! ## One rule, without an initial text -/

/-- Directives make no rules out of none. -/
theorem expandAll_nil {limit : Nat} {ds : List Directive} {out : List RawRule}
    (h : expandAll limit [] ds = .ok out) : out = [] := by
  induction ds with
  | nil => exact (Except.ok.inj h).symm
  | cons d ds ih =>
    rw [expandAll, List.foldlM_cons] at h
    obtain ⟨rules, hd, hrest⟩ := bind_eq_ok_iff.mp h
    obtain ⟨token, -, rfl⟩ := Directive.apply_eq_ok hd
    exact ih hrest

/-- The only statement that adds a rule to an empty source is a rule. -/
theorem add_empty {limits : Limits} {st : Statement} {s : Source}
    (h : Source.add limits {} st = .ok s) :
    s.rules = [] ∨ ∃ raw, st = .rule raw ∧ s = { rules := [raw] } ∧ 1 ≤ limits.rules := by
  cases st with
  | initial raw =>
    obtain ⟨t, -, hs⟩ := bind_eq_ok_iff.mp h
    cases hs
    exact .inl rfl
  | rule raw =>
    rw [Source.add] at h
    split_ifs at h with hfull
    cases h
    exact .inr ⟨raw, rfl, rfl, Nat.lt_of_not_le hfull⟩
  | directive d =>
    rw [Source.add] at h
    split_ifs at h
    cases h
    exact .inl rfl
  | unknown word => cases h
  | comment =>
    cases h
    exact .inl rfl

/-- A rule of a program with a single statement is the rule of this statement. -/
theorem rule_of_single_statement {limits : Limits} {t : Text} {st : Statement} {p : Program}
    {r : Rule} (hst : statements t = [st]) (hp : Program.compile limits t = .ok p)
    (hr : r ∈ p.rules) : ∃ raw, st = .rule raw ∧ raw.compile = .ok r ∧ 1 ≤ limits.rules := by
  obtain ⟨s, raws, rules, hread, hexpand, hcompile, rfl⟩ := Program.compile_eq_ok.mp hp
  obtain ⟨raw, hraw, hrule⟩ := mem_of_mapM_eq_ok hcompile hr
  have hadd := (Source.read_eq_ok.mp hread).1
  rw [hst, Source.addAll, List.foldlM_cons] at hadd
  obtain ⟨s', hs', hpure⟩ := bind_eq_ok_iff.mp hadd
  cases hpure
  rcases add_empty hs' with hnone | ⟨raw', rfl, rfl, hlimit⟩
  · rw [hnone] at hexpand
    rw [expandAll_nil hexpand] at hraw
    cases hraw
  · cases hexpand
    obtain rfl := List.mem_singleton.mp hraw
    exact ⟨raw, rfl, hrule, hlimit⟩

/-- The kind that a word announces is not plain. -/
theorem ofWord_ne_plain (word key value : Text) (raw : RawRule)
    (h : Statement.ofWord word key value = .rule raw) : raw.kind ≠ .plain := by
  unfold Statement.ofWord RuleKind.ofKeyword? at h
  split_ifs at h <;> cases h <;> simp

/-- A key with a word in front is not read as the key of a plain rule. -/
theorem read_of_startsWithWord {key value : Text} {raw : RawRule} (h : StartsWithWord key)
    (hread : Statement.read (encode key ++ '=' :: value) = .rule raw) : raw.kind ≠ .plain := by
  obtain ⟨a, b, c, rest, rfl, ha, hb, hc⟩ := h
  rw [encode_word ha hb hc] at hread
  by_cases hstr : [a, b, c] = "str".toList
  · have hletters : [a, b, c, ' '] = "str ".toList := congrArg (· ++ [' ']) hstr
    rw [show a :: b :: c :: ' ' :: encode rest ++ '=' :: value =
      [a, b, c, ' '] ++ (encode rest ++ '=' :: value) from rfl, hletters,
      Statement.read_initial] at hread
    cases hread
  · rw [read_word ha hb hc hstr (sealed_encode (isSpecial_of_eq rfl) rest)] at hread
    exact ofWord_ne_plain _ _ _ raw hread

/-- **An encoded text can be a key unless it starts like a keyword.** The encoded texts `k` and
    `v`, with an equals sign between them, are the program without an initial text whose only rule
    is plain and rewrites `k` to `v`, if and only if there may be a rule and `k` does not start with
    three lowercase letters and a space. -/
theorem compile_key_value_iff (limits : Limits) (k v : Text) :
    (∃ p, Program.compile limits (encode k ++ '=' :: encode v) = .ok p ∧ p.initial = [] ∧
      p.rules = [⟨.plain, ⟨k, []⟩, ⟨v, []⟩⟩]) ↔
      1 ≤ limits.rules ∧ ¬ StartsWithWord k := by
  have hstatement : encode k ++ '=' :: encode v =
      (Rule.mk .plain ⟨k, []⟩ ⟨v, []⟩).raw.statement := by
    simp [Rule.raw, encodePieces, Pieces.map, Pieces.joinWith, RawRule.statement, RawRule.text,
      RuleKind.announcement, RuleKind.keyword?]
  have hsingle : statements (encode k ++ '=' :: encode v) =
      [Statement.read (encode k ++ '=' :: encode v)] := by
    rw [hstatement]
    exact statements_of_sealed (sealed_statement _)
  constructor
  · rintro ⟨p, hp, -, hrules⟩
    obtain ⟨raw, hraw, hrule, hlimit⟩ :=
      rule_of_single_statement hsingle hp (hrules ▸ List.mem_singleton_self _)
    refine ⟨hlimit, fun hword => read_of_startsWithWord hword hraw ?_⟩
    exact (RawRule.compile_eq_ok_iff.mp hrule).1.symm
  · rintro ⟨hlimit, hword⟩
    have hroom : ({} : Source).rules.length + [(Rule.mk .plain ⟨k, []⟩ ⟨v, []⟩).raw].length ≤
        limits.rules := by
      simpa using hlimit
    have hadd : Source.addAll limits {} (statements (encode k ++ '=' :: encode v)) =
        .ok { rules := [(Rule.mk .plain ⟨k, []⟩ ⟨v, []⟩).raw] } := by
      rw [hsingle, hstatement, read_raw_statement fun _ => hword]
      exact addAll_rules hroom
    exact compile_of_rules (Source.read_eq_ok.mpr ⟨hadd, Nat.zero_le _⟩) rfl rfl

/-- The text `str a`, as a key, is read as the statement of the initial text. -/
theorem compile_key_value_str :
    Program.compile {} (encode "str a".toList ++ '=' :: encode "b".toList) =
        .ok ⟨"a=b".toList, [], {}, ⟨1, 0, 0, 0⟩⟩ ∧
      ¬ ∃ p, Program.compile {} (encode "str a".toList ++ '=' :: encode "b".toList) = .ok p ∧
        p.initial = [] ∧ p.rules = [⟨.plain, ⟨"str a".toList, []⟩, ⟨"b".toList, []⟩⟩] := by
  refine ⟨rfl, ?_⟩
  rintro ⟨p, hp, hinitial, -⟩
  cases hp
  cases hinitial

end NormalAlgorithm
