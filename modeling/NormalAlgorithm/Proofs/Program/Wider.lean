import NormalAlgorithm.Program
import NormalAlgorithm.Proofs.Expansion.Pass
import NormalAlgorithm.Proofs.Run.Lockstep
import Mathlib.Tactic.SplitIfs

/-!
# Wider limits

Each limit is looked at in a place of its own: the one on rules with every rule that is written and
with every directive that is applied, the one on directives with every directive that is written,
the one on the size of texts behind the last statement and after every step, and the one on steps
before every step. In all these places, wider limits let through whatever narrower limits let
through, and change nothing else.

Results:
* `Source.read_of_wider`, `expandAll_of_wider`, `Program.compileWith_of_wider`: what is accepted
  within some limits is accepted within wider limits, and gives the same.
* `compile_within`: wider limits change a run only if it ends at a limit, and only behind its texts.
-/

namespace NormalAlgorithm

/-- No limit of the second is narrower than that of the first. -/
structure Limits.Within (limits wider : Limits) : Prop where
  rules : limits.rules ≤ wider.rules
  directives : limits.directives ≤ wider.directives
  steps : limits.steps ≤ wider.steps
  units : limits.units ≤ wider.units

/-! ## Reading -/

namespace Source

variable {limits wider : Limits} {s s' : Source}

theorem add_of_wider (hrules : limits.rules ≤ wider.rules)
    (hdirectives : limits.directives ≤ wider.directives) {st : Statement}
    (h : s.add limits st = .ok s') : s.add wider st = .ok s' := by
  cases st with
  | initial raw => exact h
  | rule r =>
    rw [add] at h ⊢
    split_ifs at h with hfull
    rw [if_neg (by omega)]
    exact h
  | directive d =>
    rw [add] at h ⊢
    split_ifs at h with hfull
    rw [if_neg (by omega)]
    exact h
  | unknown word => cases h
  | comment => exact h

theorem addAll_of_wider (hrules : limits.rules ≤ wider.rules)
    (hdirectives : limits.directives ≤ wider.directives) {sts : List Statement}
    (h : addAll limits s sts = .ok s') : addAll wider s sts = .ok s' := by
  induction sts generalizing s with
  | nil => exact h
  | cons st sts ih =>
    rw [addAll, List.foldlM_cons, bind_eq_ok_iff] at h ⊢
    obtain ⟨between, hadd, hrest⟩ := h
    exact ⟨between, add_of_wider hrules hdirectives hadd, ih hrest⟩

theorem read_of_wider (hrules : limits.rules ≤ wider.rules)
    (hdirectives : limits.directives ≤ wider.directives) (hunits : limits.units ≤ wider.units)
    {t : Text} (h : read limits t = .ok s) : read wider t = .ok s := by
  obtain ⟨hadd, hsize⟩ := read_eq_ok.mp h
  exact read_eq_ok.mpr ⟨addAll_of_wider hrules hdirectives hadd, Nat.le_trans hsize hunits⟩

end Source

/-! ## Expanding -/

theorem Directive.apply_of_wider {limit wider : Nat} (hle : limit ≤ wider)
    {rules out : List RawRule} {d : Directive} (h : d.apply limit rules = .ok out) :
    d.apply wider rules = .ok out := by
  obtain ⟨token, htoken, hroom, hout⟩ := apply_eq_ok_iff.mp h
  refine apply_eq_ok_iff.mpr ⟨token, htoken, ?_, hout⟩
  rcases hroom with hone | hless | hnone
  · exact .inl hone
  · exact .inr (.inl (Nat.lt_of_lt_of_le hless hle))
  · exact .inr (.inr hnone)

theorem expandAll_of_wider {limit wider : Nat} (hle : limit ≤ wider) {rules out : List RawRule}
    {ds : List Directive} (h : expandAll limit rules ds = .ok out) :
    expandAll wider rules ds = .ok out := by
  induction ds generalizing rules with
  | nil => exact h
  | cons d ds ih =>
    obtain ⟨between, hd, hds⟩ := expandAll_cons_eq_ok_iff.mp h
    exact expandAll_cons_eq_ok_iff.mpr ⟨between, d.apply_of_wider hle hd, ih hds⟩

/-! ## Compiling -/

section

variable {build : Builder} {limits wider : Limits} {t : Text} {p : Program}

/-- Wider limits change nothing in a program but its limits. -/
theorem Program.compileWith_of_wider (hrules : limits.rules ≤ wider.rules)
    (hdirectives : limits.directives ≤ wider.directives) (hunits : limits.units ≤ wider.units)
    (h : compileWith build limits t = .ok p) :
    compileWith build wider t = .ok { p with limits := wider } := by
  obtain ⟨s, raw, rules, hread, hexpand, hcompile, rfl⟩ := compileWith_eq_ok.mp h
  exact compileWith_eq_ok.mpr ⟨s, raw, rules, Source.read_of_wider hrules hdirectives hunits hread,
    expandAll_of_wider hrules hexpand, hcompile, rfl⟩

/-- The limit on steps does not matter to compiling. -/
theorem Program.compileWith_of_steps (h : compileWith build limits t = .ok p) (n : Nat) :
    compileWith build { limits with steps := n } t =
      .ok { p with limits := { limits with steps := n } } := by
  refine compileWith_of_wider ?_ ?_ ?_ h
  · exact Nat.le_refl limits.rules
  · exact Nat.le_refl limits.directives
  · exact Nat.le_refl limits.units

end

/-! ## Running -/

/-- The texts that a run hands out. -/
def Account.texts (a : Account) : List Text := a.items.filterMap Except.toOption

/-- At the start, the program with wider limits is ahead by the differences. -/
theorem Program.ahead_start {limits wider : Limits} (h : limits.Within wider) {p : Program}
    (hlimits : p.limits = limits) :
    Run.Ahead (wider.units - limits.units) (wider.steps - limits.steps) p.start
      { p with limits := wider }.start where
  rules_eq := rfl
  units_eq := by
    have hunits := h.units
    simp only [start, hlimits]
    omega
  left_eq := by
    have hsteps := h.steps
    simp only [Run.stepsLeft, start, hlimits]
    omega
  current_eq := rfl
  phase_eq := rfl

/-- **Wider limits never change what has worked.** Whoever makes the matchers, a source that can be
    compiled within some limits can be compiled within wider ones, to the same initial text and the
    same rules. The run within the narrower limits hands out the first of the texts that the run
    within the wider limits hands out; and unless its last item is the fault of a limit, the two
    runs hand out the same items and halt in the same way. -/
theorem compile_within {build : Builder} {limits wider : Limits} (hwithin : limits.Within wider)
    {source : Text} {p : Program} (h : Program.compileWith build limits source = .ok p) :
    ∃ p', Program.compileWith build wider source = .ok p' ∧
      p'.initial = p.initial ∧ p'.rules = p.rules ∧
      p.start.account.texts <+: p'.start.account.texts ∧
      (p.start.account.items.getLast? ≠ some (.error .textTooLong) →
        p.start.account.items.getLast? ≠ some (.error .tooManySteps) →
        p'.start.account = p.start.account) := by
  have hcompile := Program.compileWith_of_wider hwithin.rules hwithin.directives hwithin.units h
  refine ⟨{ p with limits := wider }, hcompile, rfl, rfl, ?_⟩
  rcases Run.account_of_ahead (p.ahead_start hwithin (Program.limits_of_compileWith h)) with
    hsame | ⟨before, f, haccount, hwidened, hbefore⟩
  · rw [hsame]
    exact ⟨List.prefix_rfl, fun _ _ => rfl⟩
  · have hlast : p.start.account.items.getLast? = some (.error f) := by simp [haccount]
    constructor
    · have htexts : p.start.account.texts = before.filterMap Except.toOption := by
        simp [Account.texts, haccount, Except.toOption]
      rw [htexts]
      exact hbefore.filterMap _
    · intro hnotLong hnotUsedUp
      rcases hwidened with ⟨rfl, -⟩ | ⟨rfl, -⟩
      · exact absurd hlast hnotLong
      · exact absurd hlast hnotUsedUp

/-- A directive, and limits that are just met: one step less would make the run fail. -/
theorem compile_within_met :
    Limits.Within { rules := 2, directives := 1, steps := 3, units := 2 } {} ∧
      ∃ p, Program.compile { rules := 2, directives := 1, steps := 3, units := 2 }
          "rep X=1,2;str 12;X=b".toList = .ok p ∧
        ∃ p', Program.compile {} "rep X=1,2;str 12;X=b".toList = .ok p' ∧ p'.rules = p.rules ∧
          p.start.account.texts <+: p'.start.account.texts ∧
          p'.start.account =
            ⟨[.ok "12".toList, .ok "b2".toList, .ok "bb".toList], some .noRuleApplies⟩ := by
  have hwithin : Limits.Within { rules := 2, directives := 1, steps := 3, units := 2 } {} :=
    ⟨by decide, by decide, by decide, by decide⟩
  obtain ⟨p, hp⟩ : ∃ p, p = Program.mk "12".toList [⟨.plain, ⟨"1".toList, []⟩, ⟨"b".toList, []⟩⟩,
    ⟨.plain, ⟨"2".toList, []⟩, ⟨"b".toList, []⟩⟩]
    { rules := 2, directives := 1, steps := 3, units := 2 } ⟨3, 1, 1, 2⟩ := ⟨_, rfl⟩
  have hcompile : Program.compile { rules := 2, directives := 1, steps := 3, units := 2 }
      "rep X=1,2;str 12;X=b".toList = .ok p := by
    rw [hp]
    rfl
  have haccount : p.start.account =
      ⟨[.ok "12".toList, .ok "b2".toList, .ok "bb".toList], some .noRuleApplies⟩ := by
    rw [hp, Run.account_of_item (i := .ok "12".toList) rfl,
      Run.account_of_item (i := .ok "b2".toList) rfl,
      Run.account_of_item (i := .ok "bb".toList) rfl, Run.account_of_done rfl]
    rfl
  obtain ⟨p', hcompile', -, hrules, hprefix, hsame⟩ := compile_within hwithin hcompile
  rw [haccount] at hsame
  exact ⟨hwithin, p, hcompile, p', hcompile', hrules, hprefix, hsame (by simp) (by simp)⟩

end NormalAlgorithm
