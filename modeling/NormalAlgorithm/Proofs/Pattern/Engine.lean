import NormalAlgorithm.Proofs.Pattern.Leftmost
import NormalAlgorithm.Proofs.Pattern.Regular

/-!
# Engines

An engine is given the text of a regular expression and searches another text for it. Whatever the
engine does with other expressions, and however it works: if it finds the first way to match at the
first place, then it finds for the expression of a pattern what the search for the pattern finds.

Results:
* `first?_regex`: the first way to match the expression of a pattern is the greedy reading.
* `LeftmostFirst.eq_find?`: engines find what the search finds.
-/

namespace NormalAlgorithm

/-- What is given the text of an expression and a text to search. -/
abbrev Engine := Text → Text → Option Match

/-- The engine finds the first way to match at the first place where there is one, for every
    expression that its text stands for. -/
def Engine.LeftmostFirst (engine : Engine) : Prop :=
  ∀ s e, Regex.parse? s = some e → ∀ t, engine s t = e.leftmostFirst t

/-- The engine that tries all ways in order, and knows no further expressions. -/
def Engine.backtracking : Engine := fun s t => (Regex.parse? s).bind fun e => e.leftmostFirst t

theorem Engine.backtracking_leftmostFirst : Engine.backtracking.LeftmostFirst := by
  intro s e h t
  rw [Engine.backtracking, h, Option.bind_some]

/-! ## The first way -/

/-- The first way to match is the first way to match a factor behind which the rest matches. -/
theorem first?_cons (i : Factor) (e : Regex) (t : Text) :
    Regex.first? (i :: e) t = (i.ways t).findSome? fun r =>
      (e.first? r.after).map fun r' => ⟨r.groups ++ r'.groups, r'.after⟩ := by
  simp only [Regex.first?, Regex.ways, List.head?_flatMap, List.head?_map]

theorem first?_literal (literal : Text) (e : Regex) (t : Text) :
    Regex.first? (literalFactors literal ++ e) t = behindLiteral literal e.first? t := by
  induction literal generalizing t with
  | nil => rfl
  | cons c literal ih =>
    rw [show literalFactors (c :: literal) ++ e =
      .atom (.one (.only c)) :: (literalFactors literal ++ e) from rfl, first?_cons]
    cases t with
    | nil => rfl
    | cons d t =>
      by_cases h : c = d
      · subst h
        simp [Factor.ways, Atom.ways, CharClass.oneWays, CharClass.accepts, ih, behindLiteral,
          stripStart?]
      · simp [Factor.ways, Atom.ways, CharClass.oneWays, CharClass.accepts, behindLiteral,
          stripStart?, h, Ne.symm h]

theorem first?_char (e : Regex) (t : Text) :
    Regex.first? (Slot.char.factor :: e) t = match t with
      | [] => none
      | c :: u => (e.first? u).map fun r => ⟨[c] :: r.groups, r.after⟩ := by
  rw [first?_cons]
  cases t with
  | nil => rfl
  | cons c u =>
    simp [Slot.factor, Factor.ways, atomsWays, Atom.ways, CharClass.oneWays, CharClass.accepts]

/-! ## Runs of digits -/

theorem accepts_digit (c : Char) : (CharClass.range '0' '9').accepts c = c.isDigit := rfl

theorem accepts_leadingDigit (c : Char) :
    (CharClass.range '1' '9').accepts c = isLeadingDigit c := by
  have hzero : c = '0' ↔ c.toNat = 48 := by
    rw [Char.ext_iff, ← UInt32.toNat_inj]
    rfl
  rw [Bool.eq_iff_iff]
  simp only [CharClass.accepts, isLeadingDigit, Char.isDigit, Bool.and_eq_true, decide_eq_true_eq,
    ne_eq, hzero, Char.le_def, UInt32.le_iff_toNat_le, ge_iff_le]
  change 49 ≤ c.toNat ∧ c.toNat ≤ 57 ↔ (48 ≤ c.toNat ∧ c.toNat ≤ 57) ∧ ¬ c.toNat = 48
  omega

theorem longestRun_eq (next : Text → Option Reading) (t : Text) :
    longestRun next t = ((CharClass.range '0' '9').manyWays t).findSome? fun way =>
      (next way.2).map fun r => (way.1, r) := by
  induction t with
  | nil => simp [longestRun, CharClass.manyWays]
  | cons c t ih =>
    rw [longestRun, CharClass.manyWays, List.findSome?_append, accepts_digit]
    congr 1
    · split_ifs
      · rw [ih, List.findSome?_map, List.map_findSome?]
        congr 1
        funext way
        cases h : next way.2 <;> simp [h]
      · rfl
    · simp

theorem first?_digits (e : Regex) (t : Text) :
    Regex.first? (Slot.digits.factor :: e) t = ledRun e.first? t := by
  rw [first?_cons]
  cases t with
  | nil => rfl
  | cons c t =>
    have hways : Slot.digits.factor.ways (c :: t) =
        if isLeadingDigit c then
          ((CharClass.range '0' '9').manyWays t).map fun way => ⟨[c :: way.1], way.2⟩
        else [] := by
      simp only [Slot.factor, Factor.ways, atomsWays, Atom.ways, CharClass.oneWays,
        accepts_leadingDigit]
      split_ifs <;> simp [Function.comp_def]
    rw [hways, ledRun, longestRun_eq]
    split_ifs
    · rw [List.findSome?_map, List.map_findSome?]
      congr 1
      funext way
      cases h : e.first? way.2 <;> simp [h]
    · rfl

/-! ## Patterns -/

theorem first?_slots (slot : Slot) (rest : List Text) :
    Regex.first? (rest.flatMap fun literal => slot.factor :: literalFactors literal) =
      readGreedily slot rest := by
  induction rest with
  | nil => cases slot <;> rfl
  | cons literal rest ih =>
    funext t
    rw [List.flatMap_cons, List.cons_append]
    cases slot with
    | char =>
      rw [first?_char, readGreedily]
      cases t with
      | nil => rfl
      | cons c u =>
        rw [readChars]
        simp only [first?_literal, ih, behindLiteral]
        cases stripStart? literal u <;> rfl
    | digits =>
      have hliteral := funext (first?_literal literal
        (rest.flatMap fun literal => Slot.digits.factor :: literalFactors literal))
      rw [first?_digits, hliteral, ih]
      rfl

/-- The first way to match the expression of a pattern is the greedy reading. -/
theorem first?_regex (p : Pattern) : p.regex.first? = p.readFront := by
  funext t
  rw [Pattern.regex, first?_literal, first?_slots, Pattern.readFront]

theorem leftmostFirst_regex (p : Pattern) (t : Text) : p.regex.leftmostFirst t = p.find? t := by
  rw [Regex.leftmostFirst, Pattern.find?, Pattern.locate?_eq, first?_regex]

/-- **Every engine finds what the search finds.** -/
theorem Engine.LeftmostFirst.eq_find? {engine : Engine} (h : engine.LeftmostFirst) (p : Pattern)
    (t : Text) : engine p.expression t = p.find? t := by
  rw [h _ _ (parse?_expression p), leftmostFirst_regex]

end NormalAlgorithm
