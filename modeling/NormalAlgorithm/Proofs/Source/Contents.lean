import NormalAlgorithm.Source
import NormalAlgorithm.Proofs.Fallible
import Mathlib.Data.List.Induction
import Mathlib.Tactic.SplitIfs

/-!
# The contents of a source

Statements are added one after the other, and the first that cannot be added refuses the source. So
it may seem that a source depends on how its statements are mixed. It does not: each statement adds
to one part of the source, whether it can be added depends on this part only, and a source that was
read holds the statements of each part, in the order in which they are written.

Results:
* `add_eq_ok_iff`: when a statement can be added, and what it makes of each part.
* `collects_concat_iff`: the same, said of all statements so far.
* `addAll_eq_ok_iff`: statements can be added one by one if and only if they add up to a source.
* `contents_of_read`: what a source that was read holds.
* `collects_congr`: what statements add up to depends on the statements of each part only.
-/

namespace NormalAlgorithm

/-! ## What a statement adds -/

/-- The parts of a source to which statements add. -/
inductive Part where
  | initial
  | rules
  | directives
  deriving DecidableEq, Repr

namespace Statement

/-- The raw text that a statement gives as the initial one, if it gives one. -/
def initial? : Statement → Option Text
  | initial raw => some raw
  | rule _ | directive _ | unknown _ | comment => none

/-- The rule that a statement adds, if it adds one. -/
def rule? : Statement → Option RawRule
  | rule r => some r
  | initial _ | directive _ | unknown _ | comment => none

/-- The directive that a statement adds, if it adds one. -/
def directive? : Statement → Option Directive
  | directive d => some d
  | initial _ | rule _ | unknown _ | comment => none

/-- The part to which a statement adds. A rule whose keyword is unknown is still a rule, and
    comments add to no part. -/
def part? : Statement → Option Part
  | initial _ => some .initial
  | rule _ | unknown _ => some .rules
  | directive _ => some .directives
  | comment => none

/-- The statements that add to this part, in their order. -/
def ofPart (k : Part) (sts : List Statement) : List Statement :=
  sts.filter fun st => st.part? = some k

end Statement

/-- The rules that stand in the text of a program. -/
def rulesIn (t : Text) : List RawRule := (statements t).filterMap Statement.rule?

/-- The directives that stand in the text of a program. -/
def directivesIn (t : Text) : List Directive := (statements t).filterMap Statement.directive?

namespace Source

/-! ## One part -/

/-- What the statements of the initial text come to: there is one at most, and it can be decoded. -/
inductive GivesInitial : List Text → Option Text → Prop
  | never : GivesInitial [] none
  | once {raw t : Text} (decoded : decode raw = some t) : GivesInitial [raw] (some t)

/-- What one more statement makes of the initial text. -/
inductive NextInitial : Option Text → Option Text → Option Text → Prop
  | same (initial? : Option Text) : NextInitial none initial? initial?
  | given {raw t : Text} (decoded : decode raw = some t) : NextInitial (some raw) none (some t)

/-- What one more statement makes of the rules or of the directives, of which there is a greatest
    number. -/
inductive NextEntries {α : Type} (limit : Nat) : Option α → List α → List α → Prop
  | same (entries : List α) : NextEntries limit none entries entries
  | appended {x : α} {entries : List α} (room : entries.length < limit) :
      NextEntries limit (some x) entries (entries ++ [x])

theorem givesInitial_append_iff {raws : List Text} {raw? initial? : Option Text} :
    GivesInitial (raws ++ raw?.toList) initial? ↔
      ∃ before, GivesInitial raws before ∧ NextInitial raw? before initial? := by
  cases raw? with
  | none =>
    rw [Option.toList_none, List.append_nil]
    constructor
    · exact fun h => ⟨initial?, h, .same initial?⟩
    · rintro ⟨_, h, ⟨⟩⟩
      exact h
  | some raw =>
    rw [Option.toList_some]
    constructor
    · intro h
      cases raws with
      | nil =>
        cases h with
        | once decoded => exact ⟨none, .never, .given decoded⟩
      | cons first raws => cases raws <;> cases h
    · rintro ⟨_, h, decoded⟩
      cases decoded with
      | given decoded =>
        cases h
        exact .once decoded

theorem entries_append_iff {α : Type} {limit : Nat} {all entries : List α} {x? : Option α} :
    entries = all ++ x?.toList ∧ entries.length ≤ limit ↔
      ∃ before, (before = all ∧ before.length ≤ limit) ∧ NextEntries limit x? before entries := by
  cases x? with
  | none =>
    rw [Option.toList_none, List.append_nil]
    constructor
    · exact fun h => ⟨entries, h, .same entries⟩
    · rintro ⟨_, h, ⟨⟩⟩
      exact h
  | some x =>
    rw [Option.toList_some]
    constructor
    · rintro ⟨rfl, hle⟩
      rw [List.length_append, List.length_singleton] at hle
      exact ⟨all, ⟨rfl, by omega⟩, .appended hle⟩
    · rintro ⟨_, ⟨rfl, -⟩, happended⟩
      cases happended with
      | appended room =>
        rw [List.length_append, List.length_singleton]
        exact ⟨rfl, room⟩

/-! ## All parts -/

section

variable {limits : Limits} {s s' : Source} {sts : List Statement} {st : Statement}

/-- What one more statement makes of a source: its keyword is known, and it adds to each part. -/
structure Next (limits : Limits) (st : Statement) (s s' : Source) : Prop where
  known : ∀ word, st ≠ .unknown word
  initial : NextInitial st.initial? s.initial? s'.initial?
  rules : NextEntries limits.rules st.rule? s.rules s'.rules
  directives : NextEntries limits.directives st.directive? s.directives s'.directives

theorem next_of_add (h : s.add limits st = .ok s') : Next limits st s s' := by
  obtain ⟨initial?, rules, directives⟩ := s
  cases st with
  | initial raw =>
    rw [add] at h
    split_ifs at h with hsecond
    obtain ⟨t, hdecode, hpure⟩ := bind_eq_ok_iff.mp h
    obtain rfl : initial? = none := by simpa using hsecond
    cases hpure
    exact ⟨by simp, .given (decodeOrFault_eq_ok_iff.mp hdecode), .same rules, .same directives⟩
  | rule r =>
    rw [add] at h
    split_ifs at h with hfull
    cases h
    exact ⟨by simp, .same initial?, .appended (Nat.lt_of_not_le hfull), .same directives⟩
  | directive d =>
    rw [add] at h
    split_ifs at h with hfull
    cases h
    exact ⟨by simp, .same initial?, .same rules, .appended (Nat.lt_of_not_le hfull)⟩
  | unknown word => cases h
  | comment =>
    cases h
    exact ⟨by simp, .same initial?, .same rules, .same directives⟩

theorem add_of_next (h : Next limits st s s') : s.add limits st = .ok s' := by
  obtain ⟨initial?, rules, directives⟩ := s
  obtain ⟨initial?', rules', directives'⟩ := s'
  obtain ⟨hknown, hinitial, hrules, hdirectives⟩ := h
  dsimp only at hinitial hrules hdirectives
  cases st with
  | initial raw =>
    cases hrules
    cases hdirectives
    cases hinitial with
    | given decoded =>
      rw [add, if_neg (by simp), decodeOrFault_eq_ok_iff.mpr decoded]
      rfl
  | rule r =>
    cases hinitial
    cases hdirectives
    cases hrules with
    | appended room => exact if_neg (Nat.not_le_of_lt room)
  | directive d =>
    cases hinitial
    cases hrules
    cases hdirectives with
    | appended room => exact if_neg (Nat.not_le_of_lt room)
  | unknown word => exact absurd rfl (hknown word)
  | comment =>
    cases hinitial
    cases hrules
    cases hdirectives
    rfl

theorem add_eq_ok_iff : s.add limits st = .ok s' ↔ Next limits st s s' :=
  ⟨next_of_add, add_of_next⟩

/-- The statements add up to this source. -/
structure Collects (limits : Limits) (sts : List Statement) (s : Source) : Prop where
  known : ∀ word, .unknown word ∉ sts
  initial : GivesInitial (sts.filterMap Statement.initial?) s.initial?
  rules : s.rules = sts.filterMap Statement.rule? ∧ s.rules.length ≤ limits.rules
  directives : s.directives = sts.filterMap Statement.directive? ∧
    s.directives.length ≤ limits.directives

theorem filterMap_concat {α β : Type} (f : α → Option β) (xs : List α) (x : α) :
    (xs ++ [x]).filterMap f = xs.filterMap f ++ (f x).toList := by
  cases h : f x <;> simp [h]

/-- A last statement can be taken away again: what is left of each part is what was there. -/
theorem Collects.exists_next (h : Collects limits (sts ++ [st]) s') :
    ∃ s, Collects limits sts s ∧ Next limits st s s' := by
  obtain ⟨known, initial, rules, directives⟩ := h
  rw [filterMap_concat, givesInitial_append_iff] at initial
  rw [filterMap_concat, entries_append_iff] at rules directives
  obtain ⟨initial?, hinitial, hnextInitial⟩ := initial
  obtain ⟨rules, hrules, hnextRules⟩ := rules
  obtain ⟨directives, hdirectives, hnextDirectives⟩ := directives
  have hknown : ∀ word, .unknown word ∉ sts := fun word hmem => known word (by simp [hmem])
  have hnextKnown : ∀ word, st ≠ .unknown word := fun word heq => known word (by simp [heq])
  exact ⟨⟨initial?, rules, directives⟩, ⟨hknown, hinitial, hrules, hdirectives⟩,
    ⟨hnextKnown, hnextInitial, hnextRules, hnextDirectives⟩⟩

theorem Collects.concat (h : Collects limits sts s) (hnext : Next limits st s s') :
    Collects limits (sts ++ [st]) s' := by
  constructor
  · intro word hmem
    rcases List.mem_append.mp hmem with hbefore | hlast
    · exact h.known word hbefore
    · exact hnext.known word (List.mem_singleton.mp hlast).symm
  · rw [filterMap_concat, givesInitial_append_iff]
    exact ⟨s.initial?, h.initial, hnext.initial⟩
  · rw [filterMap_concat, entries_append_iff]
    exact ⟨s.rules, h.rules, hnext.rules⟩
  · rw [filterMap_concat, entries_append_iff]
    exact ⟨s.directives, h.directives, hnext.directives⟩

theorem collects_concat_iff :
    Collects limits (sts ++ [st]) s' ↔ ∃ s, Collects limits sts s ∧ s.add limits st = .ok s' := by
  simp only [add_eq_ok_iff]
  exact ⟨Collects.exists_next, fun ⟨_, h, hnext⟩ => h.concat hnext⟩

theorem addAll_eq_ok_iff : addAll limits {} sts = .ok s ↔ Collects limits sts s := by
  induction sts using List.reverseRecOn generalizing s with
  | nil =>
    constructor
    · rintro ⟨⟩
      exact ⟨nofun, .never, ⟨rfl, Nat.zero_le _⟩, ⟨rfl, Nat.zero_le _⟩⟩
    · obtain ⟨initial?, rules, directives⟩ := s
      rintro ⟨-, ⟨⟩, ⟨⟨⟩, -⟩, ⟨⟨⟩, -⟩⟩
      rfl
  | append_singleton sts st ih =>
    rw [collects_concat_iff, addAll, List.foldlM_append, bind_eq_ok_iff]
    simp only [← ih]
    simp [addAll]

theorem contents_of_read {t : Text} (h : read limits t = .ok s) :
    s.rules = rulesIn t ∧ s.directives = directivesIn t ∧ s.rules.length ≤ limits.rules := by
  obtain ⟨-, -, ⟨hrules, hlimit⟩, hdirectives, -⟩ := addAll_eq_ok_iff.mp (read_eq_ok.mp h).1
  exact ⟨hrules, hdirectives, hlimit⟩

end

/-! ## Only the order inside each part matters -/

section

variable {limits : Limits} {s : Source} {sts sts' : List Statement}

/-- What statements add to a part can be read off the statements of this part. -/
theorem filterMap_ofPart {β : Type} {f : Statement → Option β} {k : Part}
    (h : ∀ st, st.part? ≠ some k → f st = none) (sts : List Statement) :
    (Statement.ofPart k sts).filterMap f = sts.filterMap f := by
  rw [Statement.ofPart, List.filterMap_filter]
  refine congrArg (List.filterMap · sts) (funext fun st => ?_)
  by_cases hpart : st.part? = some k
  · simp [hpart]
  · simp [hpart, h st hpart]

theorem Collects.congr (hparts : ∀ k, Statement.ofPart k sts = Statement.ofPart k sts')
    (h : Collects limits sts s) : Collects limits sts' s := by
  have hsame {β : Type} {f : Statement → Option β} (k : Part)
      (hf : ∀ st, st.part? ≠ some k → f st = none) : sts.filterMap f = sts'.filterMap f := by
    rw [← filterMap_ofPart hf sts, hparts k, filterMap_ofPart hf sts']
  have hinitial : sts.filterMap Statement.initial? = sts'.filterMap Statement.initial? :=
    hsame .initial fun st hst => by cases st <;> first | rfl | exact absurd rfl hst
  have hrules : sts.filterMap Statement.rule? = sts'.filterMap Statement.rule? :=
    hsame .rules fun st hst => by cases st <;> first | rfl | exact absurd rfl hst
  have hdirectives : sts.filterMap Statement.directive? = sts'.filterMap Statement.directive? :=
    hsame .directives fun st hst => by cases st <;> first | rfl | exact absurd rfl hst
  refine ⟨fun word hmem => h.known word ?_, hinitial ▸ h.initial, hrules ▸ h.rules,
    hdirectives ▸ h.directives⟩
  -- An unknown keyword stands in front of a rule, so that it is among the statements of this part.
  have hpart : .unknown word ∈ Statement.ofPart .rules sts' := List.mem_filter.mpr ⟨hmem, rfl⟩
  rw [← hparts] at hpart
  exact (List.mem_filter.mp hpart).1

theorem collects_congr (hparts : ∀ k, Statement.ofPart k sts = Statement.ofPart k sts') :
    Collects limits sts s ↔ Collects limits sts' s :=
  ⟨.congr hparts, .congr fun k => (hparts k).symm⟩

end

end Source

end NormalAlgorithm
