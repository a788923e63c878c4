import NormalAlgorithm.Program
import NormalAlgorithm.Proofs.Fallible
import Mathlib.Tactic.SplitIfs

/-!
# Refused programs

A program is refused for what is written in it: its statements, the number of its rules and
directives, the size of its initial text, a backslash that protects nothing, or a key for which no
matcher can be made. None of these faults can end a run, and none of the faults that end a run can
refuse a program.

Results:
* `RawRule.compile_eq_error_iff`: a rule is refused for its raw texts.
* `Source.read_eq_error`, `expandAll_eq_error`, `RawRule.compile_eq_error`: the faults of each part.
* `Program.compileWith_eq_ok_iff`: a builder changes nothing in a program, it can only refuse it.
* `Program.compileWith_eq_error`: no program is refused with a fault that ends runs.
-/

namespace NormalAlgorithm

/-- Whether a fault ends runs. The others refuse programs. -/
def Fault.endsRun : Fault → Bool
  | textTooLong | tooManySteps | notACharacter _ => true
  | secondInitial | unknownKeyword _ | danglingBackslash | tooManyRules | tooManyDirectives
  | tooManyClones _ | initialTooLong | malformedPattern _ => false

/-! ## Raw text -/

theorem endsRun_of_decodeOrFault {t : Text} {f : Fault} (h : decodeOrFault t = .error f) :
    f.endsRun = false := by
  obtain ⟨-, rfl⟩ := decodeOrFault_eq_error_iff.mp h
  rfl

theorem decodePieces_eq_error_iff {t : Text} {f : Fault} :
    decodePieces t = .error f ↔
      (∃ raw ∈ (split (· = '%') t).toList, decode raw = none) ∧ f = .danglingBackslash := by
  have hfault : ∀ {f}, decodePieces t = .error f →
      ∃ raw ∈ (split (· = '%') t).toList, decode raw = none ∧ f = .danglingBackslash := by
    intro f h
    have hmapM := Pieces.toList_mapM decodeOrFault (split (· = '%') t)
    rw [← decodePieces, h] at hmapM
    obtain ⟨raw, hraw, herror⟩ := mapM_eq_error hmapM.symm
    exact ⟨raw, hraw, decodeOrFault_eq_error_iff.mp herror⟩
  constructor
  · intro h
    obtain ⟨raw, hraw, hnone, rfl⟩ := hfault h
    exact ⟨⟨raw, hraw, hnone⟩, rfl⟩
  · rintro ⟨⟨raw, hraw, hnone⟩, rfl⟩
    cases h : decodePieces t with
    | error f =>
      obtain ⟨-, -, -, rfl⟩ := hfault h
      rfl
    | ok p =>
      have hmapM := Pieces.toList_mapM decodeOrFault (split (· = '%') t)
      rw [← decodePieces, h] at hmapM
      obtain ⟨u, hu⟩ := exists_eq_ok_of_mapM hmapM.symm hraw
      rw [decodeOrFault_eq_ok_iff, hnone] at hu
      cases hu

/-! ## Statements -/

namespace Source

variable {limits : Limits} {f : Fault}

theorem add_eq_error {s : Source} {st : Statement} (h : s.add limits st = .error f) :
    f.endsRun = false := by
  cases st with
  | initial raw =>
    rw [add] at h
    split_ifs at h
    · cases h
      rfl
    · rcases bind_eq_error_iff.mp h with hraw | ⟨t, -, hpure⟩
      · exact endsRun_of_decodeOrFault hraw
      · cases hpure
  | rule r =>
    rw [add] at h
    split_ifs at h
    cases h
    rfl
  | directive d =>
    rw [add] at h
    split_ifs at h
    cases h
    rfl
  | unknown word =>
    cases h
    rfl
  | comment => cases h

theorem read_eq_error {t : Text} (h : read limits t = .error f) : f.endsRun = false := by
  rcases bind_eq_error_iff.mp h with hadd | ⟨s, -, hsize⟩
  · obtain ⟨s, st, -, hst⟩ := foldlM_eq_error hadd
    exact add_eq_error hst
  · split_ifs at hsize
    cases hsize
    rfl

end Source

/-! ## Directives -/

theorem Directive.apply_eq_error {limit : Nat} {rules : List RawRule} {d : Directive} {f : Fault}
    (h : d.apply limit rules = .error f) : f.endsRun = false := by
  rcases bind_eq_error_iff.mp h with htoken | ⟨token, -, hclones⟩
  · exact endsRun_of_decodeOrFault htoken
  · dsimp only at hclones
    split at hclones
    · cases hclones
      rfl
    · cases hclones

theorem expandAll_eq_error {limit : Nat} {rules : List RawRule} {ds : List Directive} {f : Fault}
    (h : expandAll limit rules ds = .error f) : f.endsRun = false := by
  obtain ⟨rules, d, -, hd⟩ := foldlM_eq_error h
  exact d.apply_eq_error hd

/-! ## Rules -/

namespace RawRule

variable {build : Builder} {r : RawRule} {f : Fault}

/-- The raw texts that are decoded when a rule is compiled. -/
def rawTexts (r : RawRule) : List Text :=
  (split (· = '%') r.key).toList ++ (split (· = '%') r.value).toList

/-- A rule is refused for the raw texts that are decoded in it. -/
theorem compile_eq_error_iff :
    r.compile = .error f ↔ (∃ raw ∈ r.rawTexts, decode raw = none) ∧ f = .danglingBackslash := by
  have hpieces : (∃ raw ∈ r.rawTexts, decode raw = none) ↔
      (∃ raw ∈ (split (· = '%') r.key).toList, decode raw = none) ∨
        ∃ raw ∈ (split (· = '%') r.value).toList, decode raw = none := by
    simp only [rawTexts, List.mem_append, or_and_right, exists_or]
  rw [hpieces, or_and_right, ← decodePieces_eq_error_iff, ← decodePieces_eq_error_iff, compile,
    bind_eq_error_iff]
  constructor
  · rintro (hkey | ⟨key, -, hrest⟩)
    · exact .inl hkey
    · rcases bind_eq_error_iff.mp hrest with hvalue | ⟨value, -, hpure⟩
      · exact .inr hvalue
      · cases hpure
  · rintro (hkey | hvalue)
    · exact .inl hkey
    · cases hkey : decodePieces r.key with
      | error f' =>
        obtain ⟨-, rfl⟩ := decodePieces_eq_error_iff.mp hkey
        obtain ⟨-, rfl⟩ := decodePieces_eq_error_iff.mp hvalue
        exact .inl rfl
      | ok key => exact .inr ⟨key, rfl, bind_eq_error_iff.mpr (.inl hvalue)⟩

theorem compile_eq_error (h : r.compile = .error f) : f.endsRun = false := by
  obtain ⟨-, rfl⟩ := compile_eq_error_iff.mp h
  rfl

theorem compileWith_eq_ok_iff {rule : Rule} :
    r.compileWith build = .ok rule ↔
      r.compile = .ok rule ∧ build rule.pattern.expression = none := by
  rw [compileWith, bind_eq_ok_iff]
  constructor
  · rintro ⟨decoded, hcompile, hbuild⟩
    split at hbuild
    · next hmade =>
      cases hbuild
      exact ⟨hcompile, hmade⟩
    · cases hbuild
  · rintro ⟨hcompile, hmade⟩
    exact ⟨rule, hcompile, by rw [hmade]; rfl⟩

theorem mapM_compileWith_eq_ok_iff {raw : List RawRule} {rules : List Rule} :
    raw.mapM (compileWith build) = .ok rules ↔
      raw.mapM compile = .ok rules ∧ ∀ rule ∈ rules, build rule.pattern.expression = none := by
  rw [mapM_eq_ok_iff_forall₂, mapM_eq_ok_iff_forall₂]
  constructor
  · intro h
    obtain ⟨hmade, hcompile⟩ := (List.forall₂_and_left _ _).mp
      (h.flip.imp fun _ _ hrule => (compileWith_eq_ok_iff.mp hrule).symm)
    exact ⟨hcompile.flip, hmade⟩
  · rintro ⟨hcompile, hmade⟩
    refine ((List.forall₂_and_left _ _).mpr ⟨hmade, hcompile.flip⟩).flip.imp fun _ _ hrule => ?_
    exact compileWith_eq_ok_iff.mpr hrule.symm

theorem compileWith_eq_error (h : r.compileWith build = .error f) : f.endsRun = false := by
  rcases bind_eq_error_iff.mp h with hcompile | ⟨rule, -, hbuild⟩
  · exact compile_eq_error hcompile
  · split at hbuild
    · cases hbuild
    · cases hbuild
      rfl

end RawRule

/-! ## Programs -/

namespace Program

variable {build : Builder} {limits : Limits} {t : Text}

/-- The programs that are compiled are those whose matchers can all be made, and they are compiled
    to the same. -/
theorem compileWith_eq_ok_iff {p : Program} :
    compileWith build limits t = .ok p ↔
      compile limits t = .ok p ∧ ∀ rule ∈ p.rules, build rule.pattern.expression = none := by
  rw [compileWith_eq_ok, compile_eq_ok]
  constructor
  · rintro ⟨s, raw, rules, hread, hexpand, hrules, rfl⟩
    obtain ⟨hcompile, hmade⟩ := RawRule.mapM_compileWith_eq_ok_iff.mp hrules
    exact ⟨⟨s, raw, rules, hread, hexpand, hcompile, rfl⟩, hmade⟩
  · rintro ⟨⟨s, raw, rules, hread, hexpand, hcompile, rfl⟩, hmade⟩
    have hrules := RawRule.mapM_compileWith_eq_ok_iff.mpr ⟨hcompile, hmade⟩
    exact ⟨s, raw, rules, hread, hexpand, hrules, rfl⟩

theorem compileWith_eq_error {f : Fault} (h : compileWith build limits t = .error f) :
    f.endsRun = false := by
  rcases bind_eq_error_iff.mp h with hread | ⟨s, -, hrest⟩
  · exact Source.read_eq_error hread
  rcases bind_eq_error_iff.mp hrest with hexpand | ⟨raw, -, hrest⟩
  · exact expandAll_eq_error hexpand
  rcases bind_eq_error_iff.mp hrest with hrules | ⟨rules, -, hpure⟩
  · obtain ⟨r, -, hr⟩ := mapM_eq_error hrules
    exact RawRule.compileWith_eq_error hr
  · cases hpure

end Program

end NormalAlgorithm
