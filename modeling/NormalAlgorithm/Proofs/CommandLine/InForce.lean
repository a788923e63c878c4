import NormalAlgorithm.CommandLine.Settings
import NormalAlgorithm.Proofs.Fallible
import Mathlib.Data.List.Induction

/-!
# Settings in force

Settings are made one after the other, each from those made so far. They come together in three
ways. Of a number and of the colour the last setting counts. The marks for the statistics and for
the brief answer stay once they are set. The input and the conversion are refused when another one
is there already, where the same conversion again is no other one.

Results:
* `Settings.follows_of_set`: what one more setting changes.
* `Settings.exists_set_iff`: when one more setting can be made.
* `Settings.foldlM_set_eq_ok_iff`: which settings can be made one after the other, and what is in
  force behind them.
-/

namespace NormalAlgorithm

/-! ## One setting -/

namespace Setting

/-- The number that a setting gives to this quantity. -/
def quantity? (q : Quantity) : Setting → Option Nat
  | quantity p n => if p = q then some n else none
  | _ => none

/-- What a setting says about colour. -/
def color? : Setting → Option Bool
  | color on => some on
  | _ => none

/-- Whether a setting gives the input. -/
def isInput : Setting → Bool
  | input _ => true
  | _ => false

end Setting

namespace Settings

/-- What is in force when one more setting has been made. -/
structure Follows (s : Settings) (x : Setting) (s' : Settings) : Prop where
  input (t : Text) : s'.input = some t ↔ s.input = some t ∨ x = .input t
  conversion (c : Conversion) : s'.conversion = some c ↔ s.conversion = some c ∨ x = .conversion c
  quantity (q : Quantity) : s'.quantity q = (x.quantity? q).getD (s.quantity q)
  color : s'.color = x.color?.getD s.color
  resultOnly : s'.resultOnly = true ↔ s.resultOnly = true ∨ x = .resultOnly
  statistics : s'.statistics = true ↔ s.statistics = true ∨ x = .statistics

section

variable {s s' : Settings} {x : Setting}

theorem follows_of_set (h : s.set x = .ok s') : s.Follows x s' := by
  cases x with
  | color on | statistics | resultOnly =>
    cases h
    constructor <;> simp [Setting.quantity?, Setting.color?]
    exact fun _ => rfl
  | quantity q n =>
    cases h
    constructor
    case quantity =>
      intro p
      rw [set_quantity, Setting.quantity?]
      by_cases hq : p = q
      · rw [if_pos hq, if_pos hq.symm, Option.getD_some]
      · rw [if_neg hq, if_neg (Ne.symm hq), Option.getD_none]
    all_goals cases q <;> simp [setQuantity, Setting.color?]
  | conversion c =>
    rw [set] at h
    split at h
    · cases h
    · rename_i hother
      cases h
      have hsame : ∀ c', s.conversion = some c' → c = c' := by
        intro c' hc'
        by_contra hne
        simp [hc', Ne.symm hne] at hother
      constructor
      case conversion =>
        intro c'
        rw [Option.some.injEq, Setting.conversion.injEq]
        exact ⟨.inr, fun h => h.elim (hsame c') id⟩
      all_goals simp [Setting.quantity?, Setting.color?]
      exact fun _ => rfl
  | input t =>
    rw [set] at h
    split at h
    · cases h
    · rename_i hnone
      cases h
      rw [Option.not_isSome_iff_eq_none] at hnone
      constructor <;> simp [Setting.quantity?, Setting.color?, hnone]
      exact fun _ => rfl

/-- An input can be set if there is none, and a conversion if there is no other. -/
theorem exists_set_iff :
    (∃ s', s.set x = .ok s') ↔
      (∀ t, x = .input t → s.input = none) ∧
        ∀ c, x = .conversion c → ∀ c', s.conversion = some c' → c = c' := by
  cases x with
  | color on | statistics | resultOnly | quantity q n => simp [set]
  | conversion c =>
    cases hconversion : s.conversion with
    | none => simp [set, hconversion]
    | some c' => by_cases hc : c = c' <;> simp [set, hconversion, hc, Ne.symm]
  | input t => cases hinput : s.input <;> simp [set, hinput]

end

/-! ## Several settings -/

/-- The settings before the first is made. Whether colours are shown depends on the output. -/
def initial (color : Bool) : Settings := { color }

end Settings

/-- At most one of the settings gives the input, and no two ask for different conversions. -/
structure Compatible (xs : List Setting) : Prop where
  input : xs.countP Setting.isInput ≤ 1
  conversion : ∀ c c', .conversion c ∈ xs → .conversion c' ∈ xs → c = c'

theorem countP_isInput_eq_zero_iff {xs : List Setting} :
    xs.countP Setting.isInput = 0 ↔ ∀ t, .input t ∉ xs := by
  rw [List.countP_eq_zero]
  constructor
  · intro h t ht
    exact h _ ht rfl
  · intro h x hx
    cases x with
    | input t => exact absurd hx (h t)
    | color | statistics | resultOnly | conversion | quantity => exact Bool.false_ne_true

theorem compatible_concat_iff {xs : List Setting} {x : Setting} :
    Compatible (xs ++ [x]) ↔ Compatible xs ∧ (∀ t, x = .input t → ∀ t', .input t' ∉ xs) ∧
      ∀ c, x = .conversion c → ∀ c', .conversion c' ∈ xs → c = c' := by
  have hone : ∀ t, [Setting.input t].countP Setting.isInput = 1 := fun _ => rfl
  constructor
  · rintro ⟨hinput, hconversion⟩
    rw [List.countP_append] at hinput
    refine ⟨⟨by omega, fun c c' hc hc' => ?_⟩, fun t ht => ?_, fun c hc c' hc' => ?_⟩
    · exact hconversion c c' (List.mem_append_left _ hc) (List.mem_append_left _ hc')
    · rw [ht, hone] at hinput
      exact countP_isInput_eq_zero_iff.mp (by omega)
    · exact hconversion c c' (by simp [hc]) (List.mem_append_left _ hc')
  · rintro ⟨⟨hinput, hconversion⟩, hlastInput, hlastConversion⟩
    constructor
    · rw [List.countP_append]
      cases hx : x.isInput with
      | false => simpa [hx] using hinput
      | true =>
        obtain ⟨t, rfl⟩ : ∃ t, x = .input t := by
          cases x <;> simp_all [Setting.isInput]
        have hnone := countP_isInput_eq_zero_iff.mpr (hlastInput t rfl)
        have hlast := hone t
        omega
    · intro c c' hc hc'
      rw [List.mem_append, List.mem_singleton] at hc hc'
      rcases hc with hc | hc <;> rcases hc' with hc' | hc'
      · exact hconversion c c' hc hc'
      · exact (hlastConversion c' hc'.symm c hc).symm
      · exact hlastConversion c hc.symm c' hc'
      · exact Setting.conversion.inj (hc.trans hc'.symm)

namespace Settings

/-- What is in force when these settings have been made, one after the other: the last number given
    to a quantity or else its default, the last word about colour or else what the output can
    show, and the input, the conversion and the marks that have been set. -/
structure InForce (color : Bool) (xs : List Setting) (s : Settings) : Prop where
  input (t : Text) : s.input = some t ↔ .input t ∈ xs
  conversion (c : Conversion) : s.conversion = some c ↔ .conversion c ∈ xs
  quantity (q : Quantity) : s.quantity q =
    (xs.filterMap (Setting.quantity? q)).getLast?.getD ((initial color).quantity q)
  color : s.color = (xs.filterMap Setting.color?).getLast?.getD color
  resultOnly : s.resultOnly = true ↔ .resultOnly ∈ xs
  statistics : s.statistics = true ↔ .statistics ∈ xs

section

variable {color : Bool} {xs : List Setting} {s s' : Settings} {x : Setting}

theorem getLast?_filterMap_concat {α β : Type} (f : α → Option β) (xs : List α) (x : α) (b : β) :
    ((xs ++ [x]).filterMap f).getLast?.getD b = (f x).getD ((xs.filterMap f).getLast?.getD b) := by
  rw [List.filterMap_append]
  cases hx : f x with
  | none => simp [hx]
  | some y => simp [hx]

theorem InForce.concat (h : InForce color xs s) (hfollows : s.Follows x s') :
    InForce color (xs ++ [x]) s' where
  input t := by rw [hfollows.input, h.input, List.mem_append, List.mem_singleton, eq_comm]
  conversion c := by
    rw [hfollows.conversion, h.conversion, List.mem_append, List.mem_singleton, eq_comm]
  quantity q := by rw [hfollows.quantity, h.quantity, getLast?_filterMap_concat]
  color := by rw [hfollows.color, h.color, getLast?_filterMap_concat]
  resultOnly := by
    rw [hfollows.resultOnly, h.resultOnly, List.mem_append, List.mem_singleton, eq_comm]
  statistics := by
    rw [hfollows.statistics, h.statistics, List.mem_append, List.mem_singleton, eq_comm]

/-- What is in force says all about the settings. -/
theorem InForce.unique (h : InForce color xs s) (h' : InForce color xs s') : s = s' := by
  have hinput : s.input = s'.input := Option.ext fun t => (h.input t).trans (h'.input t).symm
  have hconversion : s.conversion = s'.conversion :=
    Option.ext fun c => (h.conversion c).trans (h'.conversion c).symm
  have hquantity : ∀ q, s.quantity q = s'.quantity q := fun q =>
    (h.quantity q).trans (h'.quantity q).symm
  have hcolor : s.color = s'.color := h.color.trans h'.color.symm
  have hresultOnly : s.resultOnly = s'.resultOnly :=
    Bool.eq_iff_iff.mpr (h.resultOnly.trans h'.resultOnly.symm)
  have hstatistics : s.statistics = s'.statistics :=
    Bool.eq_iff_iff.mpr (h.statistics.trans h'.statistics.symm)
  have hlimits : s.limits = s'.limits := by
    rw [Limits.mk.injEq]
    exact ⟨hquantity .rules, hquantity .directives, hquantity .steps, hquantity .units⟩
  have hwindow : s.window = s'.window := by
    rw [Window.mk.injEq]
    exact ⟨hquantity .head, hquantity .tail, hquantity .budget⟩
  rw [Settings.mk.injEq]
  exact ⟨hinput, hconversion, hlimits, hwindow, hresultOnly, hquantity .result, hstatistics, hcolor⟩

theorem inForce_of_foldlM (h : xs.foldlM set (initial color) = .ok s) : InForce color xs s := by
  induction xs using List.reverseRecOn generalizing s with
  | nil =>
    cases h
    constructor <;> simp [initial]
  | append_singleton xs x ih =>
    obtain ⟨s', hmade, hset⟩ := foldlM_concat_eq_ok_iff.mp h
    exact (ih hmade).concat (follows_of_set hset)

/-- Settings can be made one after the other exactly if they are compatible, in whatever order. -/
theorem exists_foldlM_set_iff :
    (∃ s, xs.foldlM set (initial color) = .ok s) ↔ Compatible xs := by
  induction xs using List.reverseRecOn with
  | nil => exact ⟨fun _ => ⟨Nat.zero_le 1, nofun⟩, fun _ => ⟨_, rfl⟩⟩
  | append_singleton xs x ih =>
    have hstep : ∀ {s}, xs.foldlM set (initial color) = .ok s →
        ((∃ s', s.set x = .ok s') ↔ (∀ t, x = .input t → ∀ t', .input t' ∉ xs) ∧
          ∀ c, x = .conversion c → ∀ c', .conversion c' ∈ xs → c = c') := by
      intro s hmade
      have hinForce := inForce_of_foldlM hmade
      simp only [exists_set_iff, Option.eq_none_iff_forall_ne_some, ne_eq, hinForce.input,
        hinForce.conversion]
    rw [compatible_concat_iff, ← ih]
    simp only [foldlM_concat_eq_ok_iff]
    constructor
    · rintro ⟨s, s', hmade, hset⟩
      exact ⟨⟨s', hmade⟩, (hstep hmade).mp ⟨s, hset⟩⟩
    · rintro ⟨⟨s, hmade⟩, hlast⟩
      obtain ⟨s', hset⟩ := (hstep hmade).mpr hlast
      exact ⟨s', s, hmade, hset⟩

/-- **What is in force.** -/
theorem foldlM_set_eq_ok_iff :
    xs.foldlM set (initial color) = .ok s ↔ Compatible xs ∧ InForce color xs s := by
  constructor
  · intro h
    exact ⟨exists_foldlM_set_iff.mp ⟨s, h⟩, inForce_of_foldlM h⟩
  · rintro ⟨hcompatible, hinForce⟩
    obtain ⟨s', h⟩ := exists_foldlM_set_iff.mpr hcompatible
    rw [h, (inForce_of_foldlM h).unique hinForce]

end

end Settings

end NormalAlgorithm
