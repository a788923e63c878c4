import NormalAlgorithm.Program
import NormalAlgorithm.Proofs.Expansion.Pass
import NormalAlgorithm.Proofs.Source.Contents
import Mathlib.Algebra.Order.BigOperators.Group.List
import Mathlib.Algebra.Order.Ring.Nat

/-!
# How many rules a program can have

A pass compares the limit on rules with the number of rules that it starts from, so that a single
pass can make more rules than the limit. It can do so only once: a pass that starts from that many
rules makes none, unless it has one value, and then it makes no more than it found. However many
directives there are, they therefore make fewer rules than the limit allows to write, times the
values of one directive.

Results:
* `length_apply`: how many rules one pass makes.
* `length_expandAll`: how many rules all passes make.
* `expanded_le`: how many rules a compiled program has.
-/

namespace NormalAlgorithm

/-! ## One pass -/

/-- Out of one rule, a directive makes at least one rule, and at most one for each value. -/
theorem RawRule.length_expand (token : Text) (d : Directive) (r : RawRule) :
    1 ≤ (r.expand token d.choices).length ∧ (r.expand token d.choices).length ≤ d.width := by
  by_cases h : token <:+: r.key
  · rw [expand_of_isInfix h, List.length_map]
    exact ⟨d.width_pos, Nat.le_refl _⟩
  · rw [expand_of_not_isInfix h]
    exact ⟨Nat.le_refl _, d.width_pos⟩

theorem length_flatMap_expand {token : Text} {d : Directive} {rules : List RawRule} {m : Nat}
    (h : ∀ r ∈ rules, (r.expand token d.choices).length ≤ m) :
    rules.length ≤ (rules.flatMap (RawRule.expand token d.choices)).length ∧
      (rules.flatMap (RawRule.expand token d.choices)).length ≤ rules.length * m := by
  rw [List.length_flatMap]
  have hlower := List.card_nsmul_le_sum (rules.map fun r => (r.expand token d.choices).length) 1
    (by simpa using fun r _ => (r.length_expand token d).1)
  have hupper := List.sum_le_card_nsmul (rules.map fun r => (r.expand token d.choices).length) m
    (by simpa using h)
  simpa using And.intro hlower hupper

/-- A pass makes as many rules as it found, unless it starts below the limit. -/
theorem Directive.length_apply {limit : Nat} {rules out : List RawRule} {d : Directive}
    (h : d.apply limit rules = .ok out) :
    rules.length ≤ out.length ∧
      (out.length = rules.length ∨
        rules.length < limit ∧ out.length ≤ rules.length * d.width) := by
  obtain ⟨token, -, hroom, rfl⟩ := apply_eq_ok_iff.mp h
  have hwidth : ∀ r ∈ rules, (r.expand token d.choices).length ≤ d.width :=
    fun r _ => (r.length_expand token d).2
  obtain ⟨hlower, hupper⟩ := length_flatMap_expand hwidth
  refine ⟨hlower, ?_⟩
  rcases hroom with hone | hless | hnone
  · rw [hone, Nat.mul_one] at hupper
    exact .inl (Nat.le_antisymm hupper hlower)
  · exact .inr ⟨hless, hupper⟩
  · have hsingle : ∀ r ∈ rules, (r.expand token d.choices).length ≤ 1 := by
      intro r hr
      rw [RawRule.expand_of_not_isInfix (hnone r hr), List.length_singleton]
    have hsame := (length_flatMap_expand hsingle).2
    rw [Nat.mul_one] at hsame
    exact .inl (Nat.le_antisymm hsame hlower)

/-! ## All passes -/

theorem length_expandAll {limit m : Nat} {rules out : List RawRule} {ds : List Directive}
    (hwidth : ∀ d ∈ ds, d.width ≤ m) (h : expandAll limit rules ds = .ok out) :
    rules.length ≤ out.length ∧ out.length ≤ max rules.length ((limit - 1) * m) := by
  -- The bound does not depend on the number of rules that a pass starts from: below the limit, the
  -- pass stays within it, and at the limit, the pass keeps the number.
  refine expandAll_invariant (motive := fun out =>
    rules.length ≤ out.length ∧ out.length ≤ max rules.length ((limit - 1) * m)) ?_ ?_ h
  · rintro d hd between out ⟨hlower, hupper⟩ hpass
    obtain ⟨hmore, hsame | ⟨hless, hmost⟩⟩ := Directive.length_apply hpass
    · exact ⟨hlower.trans hmore, hsame ▸ hupper⟩
    · refine ⟨hlower.trans hmore, ?_⟩
      calc out.length ≤ between.length * d.width := hmost
        _ ≤ (limit - 1) * m := Nat.mul_le_mul (Nat.le_sub_one_of_lt hless) (hwidth d hd)
        _ ≤ max rules.length ((limit - 1) * m) := Nat.le_max_right _ _
  · exact ⟨Nat.le_refl _, Nat.le_max_left _ _⟩

/-! ## Compiled programs -/

/-- The largest number of values of a directive in the text of a program, and one if there is no
    directive. -/
def mostValues (t : Text) : Nat := ((directivesIn t).map Directive.width).max?.getD 1

theorem width_le_mostValues {t : Text} {d : Directive} (h : d ∈ directivesIn t) :
    d.width ≤ mostValues t :=
  List.le_max?_getD_of_mem (List.mem_map_of_mem h)

theorem mostValues_pos (t : Text) : 1 ≤ mostValues t := by
  cases h : directivesIn t with
  | nil => simp [mostValues, h]
  | cons d ds => exact d.width_pos.trans (width_le_mostValues (h ▸ List.mem_cons_self))

/-- **The limit on rules bounds expansion.** The rules of a compiled program are at least as many
    as were written. However many directives there are, they are not more than were written, or
    not more than one less than the limit, times the values of the directive that has most; so they
    are never more than the limit times this number. -/
theorem expanded_le {limits : Limits} {t : Text} {p : Program}
    (h : Program.compile limits t = .ok p) :
    p.counts.written ≤ p.counts.expanded ∧ p.counts.expanded = p.rules.length ∧
      p.counts.expanded ≤ max p.counts.written ((limits.rules - 1) * mostValues t) ∧
      p.counts.expanded ≤ limits.rules * mostValues t := by
  obtain ⟨s, raw, rules, hread, hexpand, hcompile, rfl⟩ := Program.compile_eq_ok.mp h
  obtain ⟨-, hdirectives, hlimit⟩ := Source.contents_of_read hread
  have hwidth : ∀ d ∈ s.directives, d.width ≤ mostValues t := by
    rw [hdirectives]
    exact fun d hd => width_le_mostValues hd
  obtain ⟨hlower, hupper⟩ := length_expandAll hwidth hexpand
  rw [← length_of_mapM_eq_ok hcompile] at hlower hupper
  have hwritten : s.rules.length ≤ limits.rules * mostValues t :=
    hlimit.trans (Nat.le_mul_of_pos_right _ (mostValues_pos t))
  have hmade : (limits.rules - 1) * mostValues t ≤ limits.rules * mostValues t :=
    Nat.mul_le_mul_right _ (Nat.sub_le _ _)
  exact ⟨hlower, rfl, hupper, hupper.trans (Nat.max_le.mpr ⟨hwritten, hmade⟩)⟩

/-- With room for two rules, the first directive makes three out of one, and the second, which has
    one value, is applied to these three. -/
theorem expanded_le_three :
    ∃ p, Program.compile { rules := 2 } "rep X=1,2,3;for Y=7;XY=Y".toList = .ok p ∧
      p.counts.written = 1 ∧ p.counts.expanded = 3 ∧
      mostValues "rep X=1,2,3;for Y=7;XY=Y".toList = 3 ∧
      p.counts.written ≤ p.counts.expanded ∧ p.counts.expanded = p.rules.length ∧
      p.counts.expanded ≤
        max p.counts.written ((2 - 1) * mostValues "rep X=1,2,3;for Y=7;XY=Y".toList) ∧
      p.counts.expanded ≤ 2 * mostValues "rep X=1,2,3;for Y=7;XY=Y".toList := by
  have hcompile : Program.compile { rules := 2 } "rep X=1,2,3;for Y=7;XY=Y".toList =
      .ok ⟨[], [⟨.plain, ⟨"17".toList, []⟩, ⟨"7".toList, []⟩⟩,
        ⟨.plain, ⟨"27".toList, []⟩, ⟨"7".toList, []⟩⟩,
        ⟨.plain, ⟨"37".toList, []⟩, ⟨"7".toList, []⟩⟩], { rules := 2 }, ⟨3, 1, 2, 3⟩⟩ := rfl
  exact ⟨_, hcompile, rfl, rfl, rfl, expanded_le hcompile⟩

end NormalAlgorithm
