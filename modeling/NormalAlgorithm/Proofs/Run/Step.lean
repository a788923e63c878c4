import NormalAlgorithm.Run
import NormalAlgorithm.Proofs.Rule.Application

/-!
# One step of a program

Of the rules whose key matches somewhere in the text, the one with the smallest position is
selected, however late in the text it matches, and its chosen match is rewritten. No later rule is
tried when the replacement cannot be written or the new text is too long.

Results:
* `Selects.unique`: the selected rule and its match are determined.
* `step_eq_stuck_iff`, `step_eq_failed_iff`, `step_eq_rewritten_iff`: exactly when a step has each
  of its three results.
-/

namespace NormalAlgorithm

/-- The rule at position `i` has a match, the chosen one is `m`, and no rule before it has any. -/
structure Selects (rules : List Rule) (t : Text) (i : Nat) (r : Rule) (m : Match) : Prop where
  position : rules[i]? = some r
  chosen : r.pattern.Chooses t m
  earlier : ∀ (j : Nat) (r' : Rule), j < i → rules[j]? = some r' →
    ∀ m', ¬ r'.pattern.Decomposes t m'

theorem Selects.unique {rules : List Rule} {t : Text} {i j : Nat} {r r' : Rule} {m m' : Match}
    (h : Selects rules t i r m) (h' : Selects rules t j r' m') : i = j ∧ r = r' ∧ m = m' := by
  have hij : i = j := by
    rcases Nat.lt_trichotomy i j with hlt | heq | hgt
    · exact absurd h.chosen.decomposes (h'.earlier i r hlt h.position m)
    · exact heq
    · exact absurd h'.chosen.decomposes (h.earlier j r' hgt h'.position m')
  subst hij
  obtain rfl := Option.some.inj (h.position.symm.trans h'.position)
  exact ⟨rfl, rfl, h.chosen.unique h'.chosen⟩

/-! ## The first rule that applies -/

theorem firstApplicable_eq_none_iff {n : Nat} {rules : List Rule} {t : Text} :
    firstApplicable n rules t = none ↔ ∀ r ∈ rules, r.apply t = none := by
  induction rules generalizing n with
  | nil => simp [firstApplicable]
  | cons r rs ih =>
    cases h : r.apply t with
    | none => simp [firstApplicable, h, ih]
    | some result => simp [firstApplicable, h]

theorem firstApplicable_eq_some_iff {n k : Nat} {rules : List Rule} {t : Text} {r : Rule}
    {result : Except Fault Text} :
    firstApplicable n rules t = some (k, r, result) ↔
      ∃ i, k = n + i ∧ rules[i]? = some r ∧ r.apply t = some result ∧
        ∀ (j : Nat) (r' : Rule), j < i → rules[j]? = some r' → r'.apply t = none := by
  induction rules generalizing n with
  | nil => simp [firstApplicable]
  | cons r₁ rs ih =>
    rw [firstApplicable]
    cases h : r₁.apply t with
    | some result₁ =>
      constructor
      · intro heq
        cases heq
        exact ⟨0, rfl, rfl, h, fun j r' hj => absurd hj (Nat.not_lt_zero j)⟩
      · rintro ⟨_ | i, rfl, hpos, happly, hbefore⟩
        · cases hpos
          rw [happly] at h
          cases h
          rfl
        · have hnone := hbefore 0 r₁ (Nat.succ_pos i) rfl
          rw [h] at hnone
          cases hnone
    | none =>
      refine Iff.trans ih ⟨?_, ?_⟩
      · rintro ⟨i, rfl, hpos, happly, hbefore⟩
        refine ⟨i + 1, by omega, hpos, happly, fun j r' hj hr' => ?_⟩
        cases j with
        | zero => cases hr'; exact h
        | succ j => exact hbefore j r' (Nat.lt_of_succ_lt_succ hj) hr'
      · rintro ⟨_ | i, rfl, hpos, happly, hbefore⟩
        · cases hpos
          rw [h] at happly
          cases happly
        · exact ⟨i, by omega, hpos, happly,
            fun j r' hj hr' => hbefore (j + 1) r' (Nat.succ_lt_succ hj) hr'⟩

theorem firstApplicable_eq_some_iff_selects {rules : List Rule} {t : Text} {i : Nat} {r : Rule}
    {result : Except Fault Text} :
    firstApplicable 0 rules t = some (i, r, result) ↔
      ∃ m, Selects rules t i r m ∧ result = (r.replacement m.groups).map (Rule.splice m) := by
  rw [firstApplicable_eq_some_iff]
  simp only [Rule.apply_eq_some_iff, Rule.apply_eq_none_iff_decomposes]
  constructor
  · rintro ⟨i', rfl, hpos, ⟨m, hm, rfl⟩, hbefore⟩
    rw [Nat.zero_add]
    exact ⟨m, ⟨hpos, hm, hbefore⟩, rfl⟩
  · rintro ⟨m, ⟨hpos, hm, hbefore⟩, rfl⟩
    exact ⟨i, (Nat.zero_add i).symm, hpos, ⟨m, hm, rfl⟩, hbefore⟩

/-! ## One step -/

namespace Program

theorem step_eq_stuck_iff {p : Program} {t : Text} :
    p.step t = .stuck ↔ ∀ r ∈ p.rules, ∀ m, ¬ r.pattern.Decomposes t m := by
  simp only [← Rule.apply_eq_none_iff_decomposes, ← firstApplicable_eq_none_iff (n := 0)]
  rcases hfirst : firstApplicable 0 p.rules t with _ | ⟨i, r, f | new⟩
  · simp [step, hfirst]
  · simp [step, hfirst]
  · by_cases hlong : p.limits.units < units new <;> simp [step, hfirst, hlong]

/-- The result of a step for which a rule is selected. -/
theorem step_of_selects {p : Program} {t : Text} {i : Nat} {r : Rule} {m : Match}
    (h : Selects p.rules t i r m) :
    p.step t = match r.replacement m.groups with
      | .error f => .failed f
      | .ok new =>
        if p.limits.units < units (Rule.splice m new) then .failed .textTooLong
        else .rewritten i (Rule.splice m new) r.isFinal := by
  rw [step, firstApplicable_eq_some_iff_selects.mpr ⟨m, h, rfl⟩]
  cases r.replacement m.groups <;> rfl

/-- Unless a program is stuck, it selects a rule. -/
theorem exists_selects {p : Program} {t : Text} (h : p.step t ≠ .stuck) :
    ∃ i r m, Selects p.rules t i r m := by
  cases hfirst : firstApplicable 0 p.rules t with
  | none => exact absurd (by rw [step, hfirst]) h
  | some found =>
    obtain ⟨i, r, result⟩ := found
    obtain ⟨m, hm, -⟩ := firstApplicable_eq_some_iff_selects.mp hfirst
    exact ⟨i, r, m, hm⟩

theorem step_eq_failed_iff {p : Program} {t : Text} {f : Fault} :
    p.step t = .failed f ↔
      ∃ i r m, Selects p.rules t i r m ∧
        (r.replacement m.groups = .error f ∨
          ∃ new, r.replacement m.groups = .ok new ∧
            p.limits.units < units (Rule.splice m new) ∧ f = .textTooLong) := by
  constructor
  · intro h
    obtain ⟨i, r, m, hm⟩ := exists_selects (p := p) (t := t) (by simp [h])
    refine ⟨i, r, m, hm, ?_⟩
    rw [step_of_selects hm] at h
    cases hr : r.replacement m.groups with
    | error f' => simp_all
    | ok new =>
      simp only [hr] at h
      split_ifs at h with hlong
      cases h
      exact .inr ⟨new, rfl, hlong, rfl⟩
  · rintro ⟨i, r, m, hm, herr | ⟨new, hnew, hlong, rfl⟩⟩
    · simp [step_of_selects hm, herr]
    · simp [step_of_selects hm, hnew, hlong]

theorem step_eq_rewritten_iff {p : Program} {t t' : Text} {i : Nat} {isFinal : Bool} :
    p.step t = .rewritten i t' isFinal ↔
      ∃ r m new, Selects p.rules t i r m ∧ r.replacement m.groups = .ok new ∧
        t' = Rule.splice m new ∧ units t' ≤ p.limits.units ∧ isFinal = r.isFinal := by
  constructor
  · intro h
    obtain ⟨j, r, m, hm⟩ := exists_selects (p := p) (t := t) (by simp [h])
    rw [step_of_selects hm] at h
    cases hr : r.replacement m.groups with
    | error f => simp [hr] at h
    | ok new =>
      simp only [hr] at h
      split_ifs at h with hlong
      cases h
      exact ⟨r, m, new, hm, hr, rfl, Nat.le_of_not_lt hlong, rfl⟩
  · rintro ⟨r, m, new, hm, hnew, rfl, hshort, rfl⟩
    simp [step_of_selects hm, hnew, Nat.not_lt_of_le hshort]

end Program

end NormalAlgorithm
