import NormalAlgorithm.Proofs.Run.Account
import NormalAlgorithm.Proofs.Run.Step

/-!
# Runs, all at once

A run can also be described without pulls, phases and stored state, as one loop that counts its
steps. As long as there are steps left, the loop selects a rule, writes its replacement, looks at
the size of the new text and hands it out; it ends as soon as one of these cannot be done, or
behind a final rule. When there are no steps left, it fails.

Results:
* `loop_account`, `account_of_loop`: a running run gives the account of the loop, and no other.
* `account_eq_iff_eager`: a compiled program, pulled to its end, gives the account that the loop
  gives.
-/

namespace NormalAlgorithm

/-! ## The loop -/

/-- The loop of a program, with `n` steps taken and the text `t` reached. -/
inductive Loop (rules : List Rule) (limits : Limits) : Nat → Text → Account → Prop
  /-- There are no steps left. -/
  | usedUp {n : Nat} {t : Text} (noneLeft : ¬ n < limits.steps) :
      Loop rules limits n t ⟨[.error .tooManySteps], none⟩
  /-- No rule has a match. -/
  | stuck {n : Nat} {t : Text} (left : n < limits.steps)
      (noMatch : ∀ r ∈ rules, ∀ m, ¬ r.pattern.Decomposes t m) :
      Loop rules limits n t ⟨[], some .noRuleApplies⟩
  /-- A group is not the number of a character. -/
  | unwritable {n : Nat} {t : Text} {i : Nat} {r : Rule} {m : Match} {group : Text}
      (left : n < limits.steps) (selected : Selects rules t i r m)
      (refused : r.replacement m.groups = .error (.notACharacter group)) :
      Loop rules limits n t ⟨[.error (.notACharacter group)], none⟩
  /-- The new text is over the limit. -/
  | tooLong {n : Nat} {t : Text} {i : Nat} {r : Rule} {m : Match} {new : Text}
      (left : n < limits.steps) (selected : Selects rules t i r m)
      (written : r.replacement m.groups = .ok new)
      (long : limits.units < units (m.before ++ new ++ m.after)) :
      Loop rules limits n t ⟨[.error .textTooLong], none⟩
  /-- The rule ends the run. -/
  | final {n : Nat} {t : Text} {i : Nat} {r : Rule} {m : Match} {new : Text}
      (left : n < limits.steps) (selected : Selects rules t i r m)
      (written : r.replacement m.groups = .ok new)
      (short : units (m.before ++ new ++ m.after) ≤ limits.units) (ends : r.isFinal = true) :
      Loop rules limits n t ⟨[.ok (m.before ++ new ++ m.after)], some .finalRule⟩
  /-- The loop goes on with the new text. -/
  | next {n : Nat} {t : Text} {i : Nat} {r : Rule} {m : Match} {new : Text} {a : Account}
      (left : n < limits.steps) (selected : Selects rules t i r m)
      (written : r.replacement m.groups = .ok new)
      (short : units (m.before ++ new ++ m.after) ≤ limits.units) (goesOn : r.isFinal = false)
      (further : Loop rules limits (n + 1) (m.before ++ new ++ m.after) a) :
      Loop rules limits n t ⟨.ok (m.before ++ new ++ m.after) :: a.items, a.halt?⟩

/-- The initial text comes first, whatever the limits are, and then what the loop gives. -/
inductive Eager (rules : List Rule) (limits : Limits) (initial : Text) : Account → Prop
  | intro {a : Account} (loop : Loop rules limits 0 initial a) :
      Eager rules limits initial ⟨.ok initial :: a.items, a.halt?⟩

namespace Run

/-! ## A running run gives the account of the loop -/

theorem account_of_finished {r : Run} (h : r.isFinished = true) : r.account = ⟨[], r.halt?⟩ :=
  account_of_done (pull_of_finished h)

theorem loop_account {r : Run} (h : r.phase = .running) :
    Loop r.program.rules r.program.limits r.steps r.current r.account := by
  induction r using pull_induction with
  | done r r' hpull =>
    rw [account_of_done hpull]
    by_cases hleft : r.steps < r.program.limits.steps
    · rw [pull_of_step h hleft] at hpull
      cases hstep : r.program.step r.current with
      | stuck =>
        rw [hstep] at hpull
        cases hpull
        exact .stuck hleft (Program.step_eq_stuck_iff.mp hstep)
      | failed f => simp [hstep] at hpull
      | rewritten i t isFinal => simp [hstep] at hpull
    · simp [pull_of_usedUp h (Nat.le_of_not_lt hleft)] at hpull
  | item r item r' hpull ih =>
    rw [account_of_item hpull]
    by_cases hleft : r.steps < r.program.limits.steps
    · rw [pull_of_step h hleft] at hpull
      cases hstep : r.program.step r.current with
      | stuck => simp [hstep] at hpull
      | failed f =>
        rw [hstep] at hpull
        cases hpull
        rw [account_of_finished rfl]
        obtain ⟨i, r₁, m, hselects, hrefused | ⟨new, hnew, hlong, rfl⟩⟩ :=
          Program.step_eq_failed_iff.mp hstep
        · obtain ⟨group, rfl⟩ := Rule.replacement_eq_error hrefused
          exact .unwritable hleft hselects hrefused
        · exact .tooLong hleft hselects hnew hlong
      | rewritten i t isFinal =>
        rw [hstep] at hpull
        obtain ⟨r₁, m, new, hselects, hnew, rfl, hshort, rfl⟩ :=
          Program.step_eq_rewritten_iff.mp hstep
        cases hpull
        cases hfinal : r₁.isFinal with
        | true =>
          rw [account_of_finished (by simp [isFinished])]
          exact .final hleft hselects hnew hshort hfinal
        | false =>
          simp only [hfinal, Bool.false_eq_true, if_false] at ih ⊢
          exact .next hleft hselects hnew hshort hfinal (ih trivial)
    · rw [pull_of_usedUp h (Nat.le_of_not_lt hleft)] at hpull
      cases hpull
      rw [account_of_finished rfl]
      exact .usedUp hleft

/-! ## The loop gives no other account -/

theorem account_of_loop {p : Program} {n : Nat} {t : Text} {a : Account}
    (h : Loop p.rules p.limits n t a) (lastRule : Option Nat) :
    (Run.mk p t n lastRule .running).account = a := by
  induction h generalizing lastRule with
  | usedUp noneLeft =>
    rw [account_of_item (pull_of_usedUp rfl (Nat.le_of_not_lt noneLeft)), account_of_finished rfl]
    rfl
  | stuck left noMatch =>
    rw [account_of_done (by rw [pull_of_step rfl left, Program.step_eq_stuck_iff.mpr noMatch])]
    rfl
  | @unwritable n t i r m group left selected refused =>
    have hstep : p.step t = .failed (.notACharacter group) :=
      Program.step_eq_failed_iff.mpr ⟨i, r, m, selected, .inl refused⟩
    rw [account_of_item (by rw [pull_of_step rfl left, hstep]), account_of_finished rfl]
    rfl
  | @tooLong n t i r m new left selected written long =>
    have hstep : p.step t = .failed .textTooLong :=
      Program.step_eq_failed_iff.mpr ⟨i, r, m, selected, .inr ⟨new, written, long, rfl⟩⟩
    rw [account_of_item (by rw [pull_of_step rfl left, hstep]), account_of_finished rfl]
    rfl
  | @final n t i r m new left selected written short ends =>
    have hstep : p.step t = .rewritten i (m.before ++ new ++ m.after) true :=
      Program.step_eq_rewritten_iff.mpr ⟨r, m, new, selected, written, rfl, short, ends.symm⟩
    rw [account_of_item (by rw [pull_of_step rfl left, hstep]), account_of_finished rfl]
    rfl
  | @next n t i r m new a left selected written short goesOn further ih =>
    have hstep : p.step t = .rewritten i (m.before ++ new ++ m.after) false :=
      Program.step_eq_rewritten_iff.mpr ⟨r, m, new, selected, written, rfl, short, goesOn.symm⟩
    rw [account_of_item (by rw [pull_of_step rfl left, hstep])]
    simp only [Bool.false_eq_true, if_false, ih]

/-! ## Pulling to the end -/

theorem account_start (p : Program) :
    p.start.account = ⟨.ok p.initial :: (Run.mk p p.initial 0 none .running).account.items,
      (Run.mk p p.initial 0 none .running).account.halt?⟩ :=
  account_of_item (pull_of_fresh rfl)

end Run

/-- **Pulling a run to its end gives what the loop gives.** The items of a run up to the first pull
    that gives none are the initial text and then the texts of the loop, with the fault of the loop
    as the last item if it fails, and the run has halted as the loop does. The loop gives one
    account only. -/
theorem account_eq_iff_eager {limits : Limits} {source : Text} {p : Program}
    (h : Program.compile limits source = .ok p) (a : Account) :
    p.start.account = a ↔ Eager p.rules limits p.initial a := by
  have hlimits : p.limits = limits := by
    obtain ⟨s, raw, rules, -, -, -, rfl⟩ := Program.compile_eq_ok.mp h
    rfl
  subst hlimits
  rw [Run.account_start]
  constructor
  · rintro rfl
    exact .intro (Run.loop_account (r := Run.mk p p.initial 0 none .running) rfl)
  · rintro ⟨hloop⟩
    rw [Run.account_of_loop hloop none]

/-- With one step allowed, a program that would halt after it fails instead. -/
theorem account_eq_iff_eager_ceiling :
    Program.compile { steps := 1 } "str a;a=b".toList =
        .ok ⟨"a".toList, [⟨.plain, ⟨"a".toList, []⟩, ⟨"b".toList, []⟩⟩], { steps := 1 },
          ⟨2, 1, 0, 1⟩⟩ ∧
      Eager [⟨.plain, ⟨"a".toList, []⟩, ⟨"b".toList, []⟩⟩] { steps := 1 } "a".toList
        ⟨[.ok "a".toList, .ok "b".toList, .error .tooManySteps], none⟩ := by
  have hcompile : Program.compile { steps := 1 } "str a;a=b".toList =
      .ok ⟨"a".toList, [⟨.plain, ⟨"a".toList, []⟩, ⟨"b".toList, []⟩⟩], { steps := 1 },
        ⟨2, 1, 0, 1⟩⟩ := rfl
  refine ⟨hcompile, (account_eq_iff_eager hcompile _).mp ?_⟩
  rw [Run.account_start, Run.account_of_item (i := .ok "b".toList) rfl,
    Run.account_of_item (i := .error .tooManySteps) rfl, Run.account_of_finished rfl]
  rfl

end NormalAlgorithm
