import NormalAlgorithm.Proofs.Run.Pulls
import NormalAlgorithm.Proofs.Run.Step
import Mathlib.Tactic.FinCases

/-!
# Shadowed rules

A rule without slots has a match in every text that holds its key. A later rule shares this key when
one of the literals of its own key holds it: wherever the later rule has a match, the earlier one
has a match too, and comes first. Such a rule is shadowed. It is never applied, and it can be taken
out of its program: each run then gives what it gave before, from its first item to its end, and
only the rules behind the one taken out are counted differently.

The state of a run without the rule is the image of the state of the run with it, so that one pull
of both is compared once and for all.

Results:
* `Pattern.Decomposes.isInfix`: a text with a match holds every literal of the key.
* `Program.inert_of_shadows`: a shadowed rule is never selected.
* `step_without`, `pull_without`, `pulls_without`, `account_without`: one step, one pull, any number
  of pulls and the whole run of a program without a rule that is never selected.
* `pulls_of_shadowed`: a shadowed rule is never applied, and taking it out changes nothing.
-/

namespace NormalAlgorithm

/-! ## Keys inside keys -/

theorem isInfix_weave {groups literals : List Text} {literal : Text}
    (hlength : groups.length = literals.length) (hmem : literal ∈ literals) :
    literal <:+: weave groups literals := by
  induction literals generalizing groups with
  | nil => cases hmem
  | cons first rest ih =>
    cases groups with
    | nil => simp at hlength
    | cons g gs =>
      rw [weave]
      rcases List.mem_cons.mp hmem with rfl | hrest
      · exact List.infix_append g literal (weave gs rest)
      · exact (ih (Nat.succ.inj hlength) hrest).trans (List.suffix_append _ _).isInfix

namespace Pattern

/-- A text with a match holds every literal of the pattern. -/
theorem Decomposes.isInfix {p : Pattern} {t : Text} {m : Match} (h : p.Decomposes t m)
    {literal : Text} (hmem : literal ∈ p.literals.toList) : literal <:+: t := by
  have hmatched : literal <:+: p.literals.first ++ weave m.groups p.literals.rest := by
    rcases List.mem_cons.mp hmem with rfl | hrest
    · exact (List.prefix_append _ _).isInfix
    · exact (isInfix_weave h.groups_length hrest).trans (List.suffix_append _ _).isInfix
  rw [h.text_eq]
  exact hmatched.trans (List.infix_append m.before _ m.after)

/-- A pattern without slots has a match in every text that holds its only literal. -/
theorem exists_decomposes_of_isInfix {p : Pattern} (hslots : p.literals.rest = []) {t : Text}
    (h : p.literals.first <:+: t) : ∃ m, p.Decomposes t m := by
  obtain ⟨before, after, rfl⟩ := h
  exact ⟨⟨before, [], after⟩, (decomposes_iff_of_noSlots hslots).mpr ⟨rfl, rfl⟩⟩

end Pattern

/-- The key of the first rule has no slot and stands inside a literal of the key of the second. -/
structure Rule.Shadows (r r' : Rule) : Prop where
  noSlot : r.key.rest = []
  inside : ∃ literal ∈ r'.key.toList, r.key.first <:+: literal

namespace Rule

/-- A rule with the same key and no slots is shadowed, whatever it does. -/
theorem shadows_of_key_eq {r r' : Rule} (hslots : r.key.rest = []) (h : r'.key = r.key) :
    r.Shadows r' where
  noSlot := hslots
  inside := ⟨r.key.first, by simp [h, Pieces.toList], List.infix_rfl⟩

/-- A rule with the empty key shadows every rule. -/
theorem shadows_of_key_empty {r : Rule} (h : r.key = ⟨[], []⟩) (r' : Rule) : r.Shadows r' where
  noSlot := by rw [h]
  inside := ⟨r'.key.first, List.mem_cons_self, by rw [h]; exact List.nil_infix⟩

/-- Where a shadowed rule has a match, the rule that shadows it has one. -/
theorem Shadows.exists_decomposes {r r' : Rule} (h : r.Shadows r') {t : Text} {m : Match}
    (hm : r'.pattern.Decomposes t m) : ∃ m', r.pattern.Decomposes t m' := by
  obtain ⟨literal, hliteral, hinside⟩ := h.inside
  have hheld : literal <:+: t := hm.isInfix hliteral
  exact Pattern.exists_decomposes_of_isInfix h.noSlot (hinside.trans hheld)

end Rule

/-! ## One rule less -/

/-- The position that a rule has when the rule at position `j` is taken out. -/
def positionWithout (j i : Nat) : Nat := if i < j then i else i - 1

/-- What a step gives, with positions as they are without the rule at position `j`. -/
def Step.without (j : Nat) : Step → Step
  | .rewritten i t isFinal => .rewritten (positionWithout j i) t isFinal
  | .stuck => .stuck
  | .failed f => .failed f

namespace Program

/-- The program without its rule at position `j`. -/
def without (p : Program) (j : Nat) : Program := { p with rules := p.rules.eraseIdx j }

/-- The rule at this position is selected for no text. -/
def Inert (p : Program) (j : Nat) : Prop := ∀ t r m, ¬ Selects p.rules t j r m

theorem inert_of_shadows {p : Program} {i j : Nat} {r r' : Rule} (hr : p.rules[i]? = some r)
    (hr' : p.rules[j]? = some r') (hij : i < j) (hshadows : r.Shadows r') : p.Inert j := by
  intro t r₁ m h
  obtain rfl : r' = r₁ := Option.some.inj (hr'.symm.trans h.position)
  obtain ⟨m', hm'⟩ := hshadows.exists_decomposes h.chosen.decomposes
  exact h.earlier i r hij hr m' hm'

/-- The same rule is selected, with the same match, at its new position. -/
theorem Inert.selects_without {p : Program} {j : Nat} (h : p.Inert j) {t : Text} {i : Nat}
    {r : Rule} {m : Match} (hselects : Selects p.rules t i r m) :
    Selects (p.without j).rules t (positionWithout j i) r m := by
  have hne : i ≠ j := by
    rintro rfl
    exact h t r m hselects
  refine ⟨?_, hselects.chosen, fun k r' hk hr' => ?_⟩
  · rw [without, List.getElem?_eraseIdx, positionWithout, ← hselects.position]
    split
    · rfl
    · rw [if_neg (by omega), Nat.sub_add_cancel (by omega)]
  · rw [without, List.getElem?_eraseIdx] at hr'
    unfold positionWithout at hk
    split at hr'
    · exact hselects.earlier k r' (by split at hk <;> omega) hr'
    · exact hselects.earlier (k + 1) r' (by split at hk <;> omega) hr'

/-- Without a rule that is never selected, each step gives what it gave. -/
theorem Inert.step_without {p : Program} {j : Nat} (h : p.Inert j) (t : Text) :
    (p.without j).step t = (p.step t).without j := by
  by_cases hstuck : p.step t = .stuck
  · have hnone := step_eq_stuck_iff.mp hstuck
    rw [hstuck]
    exact step_eq_stuck_iff.mpr fun r hr => hnone r (List.mem_of_mem_eraseIdx hr)
  · obtain ⟨i, r, m, hselects⟩ := exists_selects hstuck
    rw [step_of_selects hselects, step_of_selects (h.selects_without hselects)]
    cases r.replacement m.groups with
    | error f => rfl
    | ok new =>
      by_cases hlong : p.limits.units < units (Rule.splice m new)
      · simp [without, hlong, Step.without]
      · simp [without, hlong, Step.without]

/-- A step never applies a rule that is never selected. -/
theorem Inert.ne_of_step {p : Program} {j : Nat} (h : p.Inert j) {t t' : Text} {i : Nat}
    {isFinal : Bool} (hstep : p.step t = .rewritten i t' isFinal) : i ≠ j := by
  obtain ⟨r, m, -, hselects, -⟩ := step_eq_rewritten_iff.mp hstep
  rintro rfl
  exact h t r m hselects

end Program

/-! ## Runs with and without the rule -/

namespace Run

/-- The run without the rule at position `j`, as far as this one has come. -/
def without (r : Run) (j : Nat) : Run :=
  { r with program := r.program.without j, lastRule := r.lastRule.map (positionWithout j) }

@[simp] theorem without_halt? (r : Run) (j : Nat) : (r.without j).halt? = r.halt? := rfl

theorem pull_without {r : Run} {j : Nat} (h : r.program.Inert j) :
    (r.without j).pull = (r.pull.1, r.pull.2.without j) := by
  by_cases hfinished : r.isFinished = true
  · rw [pull_of_finished hfinished, pull_of_finished (r := r.without j) hfinished]
  cases hphase : r.phase with
  | fresh =>
    rw [pull_of_fresh hphase, pull_of_fresh (r := r.without j) hphase]
    rfl
  | running =>
    by_cases hleft : r.steps < r.program.limits.steps
    · have hstep : (r.without j).program.step (r.without j).current =
          (r.program.step r.current).without j := h.step_without r.current
      rw [pull_of_step hphase hleft, pull_of_step (r := r.without j) hphase hleft, hstep]
      cases r.program.step r.current <;> rfl
    · have hused : r.program.limits.steps ≤ r.steps := Nat.le_of_not_lt hleft
      rw [pull_of_usedUp hphase hused, pull_of_usedUp (r := r.without j) hphase hused]
      rfl
  | halted why => simp [isFinished, hphase] at hfinished
  | failed => simp [isFinished, hphase] at hfinished

theorem pulls_without {r : Run} {j : Nat} (h : r.program.Inert j) (n : Nat) :
    (r.without j).pulls n = ((r.pulls n).1, (r.pulls n).2.without j) := by
  induction n with
  | zero => rfl
  | succ n ih =>
    rw [pulls_succ, ih, pull_without ((pulls_program r n).symm ▸ h), pulls_succ]

theorem account_without {r : Run} {j : Nat} (h : r.program.Inert j) :
    (r.without j).account = r.account := by
  induction r using pull_induction with
  | done r r' hpull =>
    have hpull' := pull_without h
    rw [hpull] at hpull'
    rw [account_of_done hpull, account_of_done hpull', without_halt?]
  | item r i r' hpull ih =>
    have hprogram : r'.program = r.program := (pulled_of_pull hpull).program_eq
    have hpull' := pull_without h
    rw [hpull] at hpull'
    rw [account_of_item hpull, account_of_item hpull', ih (hprogram ▸ h)]

/-- The last rule that was applied is none that is never selected. -/
theorem lastRule_ne_of_inert {p : Program} {j : Nat} (h : p.Inert j) (n : Nat) :
    (p.start.pulls n).2.lastRule ≠ some j := by
  have hinvariant : (p.start.pulls n).2.program = p ∧ (p.start.pulls n).2.lastRule ≠ some j := by
    refine pulls_induction (motive := fun _ r => r.program = p ∧ r.lastRule ≠ some j) ?_ ?_ n
    · exact ⟨rfl, by simp [Program.start]⟩
    · rintro answers r answer r' ⟨hprogram, hlast⟩ hpulled
      refine ⟨hpulled.program_eq.trans hprogram, ?_⟩
      cases hpulled with
      | rewritten running left step =>
        rw [hprogram] at step
        simpa using h.ne_of_step step
      | initial | usedUp | stuck | failed | ended => exact hlast
  exact hinvariant.2

end Run

/-- **Shadowed rules are inert.** If the key of a rule has no slots and stands inside a literal of
    the key of a later rule, then no run ever applies the later rule, whatever the initial text and
    the limits are. The program without it gives the same items and halts in the same way, pull by
    pull and in all; in the state of its runs, only the position of the last rule is counted without
    the one taken out. -/
theorem pulls_of_shadowed {p : Program} {i j : Nat} {r r' : Rule} (hr : p.rules[i]? = some r)
    (hr' : p.rules[j]? = some r') (hij : i < j) (hshadows : r.Shadows r') :
    (∀ n, (p.start.pulls n).2.lastRule ≠ some j ∧
      ((p.without j).start.pulls n).1 = (p.start.pulls n).1 ∧
      ((p.without j).start.pulls n).2 = (p.start.pulls n).2.without j ∧
      ((p.without j).start.pulls n).2.halt? = (p.start.pulls n).2.halt?) ∧
    (p.without j).start.account = p.start.account := by
  have hinert : p.Inert j := Program.inert_of_shadows hr hr' hij hshadows
  have hstart : (p.without j).start = p.start.without j := rfl
  rw [hstart]
  refine ⟨fun n => ?_, Run.account_without (r := p.start) hinert⟩
  rw [Run.pulls_without (r := p.start) hinert]
  exact ⟨Run.lastRule_ne_of_inert hinert n, rfl, rfl, rfl⟩

/-- Three shadowed rules: one whose key holds the key of the first rule behind a slot, one behind a
    rule with the empty key, and one with the same key as the first. None is missed. -/
theorem pulls_of_shadowed_thrice :
    ∃ p, Program.compile {} "str abb;b=c;ord %bb=%;fin =z;a=x;chr b=%".toList = .ok p ∧
      ∀ j ∈ [1, 3, 4], (∀ n, (p.start.pulls n).2.lastRule ≠ some j) ∧
        (p.without j).start.account =
          ⟨[.ok "abb".toList, .ok "acb".toList, .ok "acc".toList, .ok "zacc".toList],
            some .finalRule⟩ := by
  obtain ⟨p, hp⟩ : ∃ p, p = Program.mk "abb".toList
    [⟨.plain, ⟨"b".toList, []⟩, ⟨"c".toList, []⟩⟩,
      ⟨.codePoint, ⟨[], ["bb".toList]⟩, ⟨[], [[]]⟩⟩, ⟨.final, ⟨[], []⟩, ⟨"z".toList, []⟩⟩,
      ⟨.plain, ⟨"a".toList, []⟩, ⟨"x".toList, []⟩⟩, ⟨.character, ⟨"b".toList, []⟩, ⟨[], [[]]⟩⟩]
    {} ⟨6, 5, 0, 5⟩ := ⟨_, rfl⟩
  have hcompile : Program.compile {} "str abb;b=c;ord %bb=%;fin =z;a=x;chr b=%".toList =
      .ok p := by
    rw [hp]
    rfl
  have haccount : p.start.account =
      ⟨[.ok "abb".toList, .ok "acb".toList, .ok "acc".toList, .ok "zacc".toList],
        some .finalRule⟩ := by
    rw [hp, Run.account_of_item (i := .ok "abb".toList) rfl,
      Run.account_of_item (i := .ok "acb".toList) rfl,
      Run.account_of_item (i := .ok "acc".toList) rfl,
      Run.account_of_item (i := .ok "zacc".toList) rfl, Run.account_of_done rfl]
    rfl
  have hshadowed : ∀ j ∈ [1, 3, 4], ∃ i r r', p.rules[i]? = some r ∧ p.rules[j]? = some r' ∧
      i < j ∧ r.Shadows r' := by
    rw [hp]
    intro j hj
    fin_cases hj
    · exact ⟨0, _, _, rfl, rfl, by decide, rfl, "bb".toList, by decide, by decide⟩
    · exact ⟨2, _, _, rfl, rfl, by decide, Rule.shadows_of_key_empty rfl _⟩
    · exact ⟨0, _, _, rfl, rfl, by decide, Rule.shadows_of_key_eq rfl rfl⟩
  refine ⟨p, hcompile, fun j hj => ?_⟩
  obtain ⟨i, r, r', hr, hr', hij, hshadows⟩ := hshadowed j hj
  obtain ⟨hpulls, hwithout⟩ := pulls_of_shadowed hr hr' hij hshadows
  exact ⟨fun n => (hpulls n).1, hwithout.trans haccount⟩

end NormalAlgorithm
