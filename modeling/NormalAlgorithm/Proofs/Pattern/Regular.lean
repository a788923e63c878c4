import NormalAlgorithm.Pattern.Expression
import NormalAlgorithm.Pattern.Search

/-!
# Regular expressions

An engine for regular expressions can search for a key when it is given the expression of the
pattern. Of all that engines understand, such an expression needs classes of single characters,
repetitions of a class and groups. There are often several ways to match. They are ordered as a
search with backtracking tries them, and the first way at the first place counts.

Results:
* `parse?_expression`: the expression of a pattern is well-formed, and every character of a literal
  stands for itself in it.
-/

namespace NormalAlgorithm

/-! ## Expressions -/

/-- A class of characters. -/
inductive CharClass where
  | only (c : Char)
  /-- Any character, line feeds included. -/
  | any
  | range (low high : Char)
  deriving DecidableEq, Repr

/-- Whether a character is in a class. -/
def CharClass.accepts : CharClass → Char → Bool
  | only c, d => d = c
  | any, _ => true
  | range low high, d => low ≤ d && d ≤ high

/-- A character of a class, or as many of them as possible. -/
inductive Atom where
  | one (k : CharClass)
  | many (k : CharClass)
  deriving DecidableEq, Repr

/-- What an expression is made of. -/
inductive Factor where
  | atom (a : Atom)
  | group (as : List Atom)
  deriving DecidableEq, Repr

/-- A regular expression: factors, one behind the other. -/
abbrev Regex := List Factor

/-! ## Matching -/

/-- The ways to take one character from the front of a text, each with the text behind it. -/
def CharClass.oneWays (k : CharClass) : Text → List (Text × Text)
  | [] => []
  | c :: t => if k.accepts c then [([c], t)] else []

/-- The ways to take any number of characters. Longer ways are tried first. -/
def CharClass.manyWays (k : CharClass) : Text → List (Text × Text)
  | [] => [([], [])]
  | c :: t =>
    (if k.accepts c then (k.manyWays t).map fun (run, u) => (c :: run, u) else []) ++ [([], c :: t)]

/-- The ways to match an atom at the front of a text, in the order in which they are tried. -/
def Atom.ways : Atom → Text → List (Text × Text)
  | one k => k.oneWays
  | many k => k.manyWays

/-- The ways to match atoms, one behind the other. Earlier atoms are changed last. -/
def atomsWays : List Atom → Text → List (Text × Text)
  | [], t => [([], t)]
  | a :: as, t => (a.ways t).flatMap fun (run, u) =>
    (atomsWays as u).map fun (run', v) => (run ++ run', v)

/-- The ways to match a factor. A group remembers what it took. -/
def Factor.ways : Factor → Text → List Reading
  | atom a, t => (a.ways t).map fun (_, u) => ⟨[], u⟩
  | group as, t => (atomsWays as t).map fun (run, u) => ⟨[run], u⟩

namespace Regex

/-- The ways to match an expression at the front of a text. -/
def ways : Regex → Text → List Reading
  | [], t => [⟨[], t⟩]
  | i :: e, t => (i.ways t).flatMap fun r =>
    (ways e r.after).map fun r' => ⟨r.groups ++ r'.groups, r'.after⟩

/-- The first way to match an expression at the front of a text. -/
def first? (e : Regex) (t : Text) : Option Reading := (e.ways t).head?

/-- The first way to match, at the first place where there is one. -/
def leftmostFirst (e : Regex) (t : Text) : Option Match :=
  (firstPlace e.first? 0 t).map fun (n, r) => ⟨t.take n, r.groups, r.after⟩

end Regex

/-! ## Syntax -/

/-- A part of the text of an expression. -/
inductive Token where
  | single (k : CharClass)
  | star
  | opening
  | closing
  deriving DecidableEq, Repr

/-- The value of a hexadecimal digit. -/
def hexDigit? (c : Char) : Option Nat :=
  if c.isDigit then some (c.toNat - '0'.toNat)
  else if 'a' ≤ c ∧ c ≤ 'f' then some (c.toNat - 'a'.toNat + 10)
  else if 'A' ≤ c ∧ c ≤ 'F' then some (c.toNat - 'A'.toNat + 10)
  else none

/-- The tokens of the text of an expression. A character that has a meaning is taken literally
    behind a backslash; a character below 256 can also be given by its number, in two hexadecimal
    digits. -/
def tokens? : Text → Option (List Token)
  | [] => some []
  | '\\' :: 'x' :: a :: b :: t => do
    let high ← hexDigit? a
    let low ← hexDigit? b
    (tokens? t).map (.single (.only (Char.ofNat (16 * high + low))) :: ·)
  | '\\' :: c :: t => if isMeta c then (tokens? t).map (.single (.only c) :: ·) else none
  | '[' :: low :: '-' :: high :: ']' :: t =>
    if low.isAlphanum ∧ high.isAlphanum ∧ low ≤ high then
      (tokens? t).map (.single (.range low high) :: ·)
    else none
  | '.' :: t => (tokens? t).map (.single .any :: ·)
  | '*' :: t => (tokens? t).map (.star :: ·)
  | '(' :: t => (tokens? t).map (.opening :: ·)
  | ')' :: t => (tokens? t).map (.closing :: ·)
  | c :: t => if isMeta c then none else (tokens? t).map (.single (.only c) :: ·)

/-- The factors of an expression, after the opening of a group and the atoms in it so far, or
    outside of groups. -/
def factors? : Option (List Atom) → List Token → Option Regex
  | none, [] => some []
  | none, .single k :: .star :: ts => (factors? none ts).map (.atom (.many k) :: ·)
  | none, .single k :: ts => (factors? none ts).map (.atom (.one k) :: ·)
  | none, .opening :: ts => factors? (some []) ts
  | some as, .single k :: .star :: ts => factors? (some (as ++ [.many k])) ts
  | some as, .single k :: ts => factors? (some (as ++ [.one k])) ts
  | some as, .closing :: ts => (factors? none ts).map (.group as :: ·)
  | _, _ => none

/-- The expression that a text stands for. -/
def Regex.parse? (t : Text) : Option Regex := (tokens? t).bind (factors? none)

/-! ## The expression of a pattern -/

/-- A literal, as tokens. -/
def literalTokens (literal : Text) : List Token := literal.map fun c => .single (.only c)

/-- A literal, as factors. -/
def literalFactors (literal : Text) : Regex := literal.map fun c => .atom (.one (.only c))

/-- A slot, as tokens. -/
def Slot.tokens : Slot → List Token
  | char => [.opening, .single .any, .closing]
  | digits => [.opening, .single (.range '1' '9'), .single (.range '0' '9'), .star, .closing]

/-- A slot, as a group. -/
def Slot.factor : Slot → Factor
  | char => .group [.one .any]
  | digits => .group [.one (.range '1' '9'), .many (.range '0' '9')]

/-- A pattern, as a regular expression. -/
def Pattern.regex (p : Pattern) : Regex :=
  literalFactors p.literals.first ++ p.literals.rest.flatMap fun literal =>
    p.slot.factor :: literalFactors literal

theorem tokens?_escapeMeta (c : Char) (t : Text) :
    tokens? (escapeMeta c ++ t) = (tokens? t).map (.single (.only c) :: ·) := by
  by_cases hhyphen : c = '-'
  · subst hhyphen
    rfl
  by_cases hmeta : isMeta c = true
  · have hx : c ≠ 'x' := by
      rintro rfl
      revert hmeta
      decide
    simp [escapeMeta, hhyphen, hmeta, tokens?, hx]
  · have hne : ∀ d, isMeta d = true → c ≠ d := by
      rintro d hd rfl
      exact hmeta hd
    simp [escapeMeta, hhyphen, hmeta, tokens?, hne '\\' rfl, hne '[' rfl, hne '.' rfl, hne '*' rfl,
      hne '(' rfl, hne ')' rfl]

theorem tokens?_literal (literal t : Text) :
    tokens? (literal.flatMap escapeMeta ++ t) = (tokens? t).map (literalTokens literal ++ ·) := by
  induction literal with
  | nil => simp [literalTokens]
  | cons c literal ih =>
    rw [List.flatMap_cons, List.append_assoc, tokens?_escapeMeta, ih, Option.map_map]
    rfl

theorem tokens?_group (slot : Slot) (t : Text) :
    tokens? (slot.group ++ t) = (tokens? t).map (slot.tokens ++ ·) := by
  cases slot with
  | char =>
    have hgroup : Slot.char.group ++ t = '(' :: '.' :: ')' :: t := rfl
    rw [hgroup, tokens?, tokens?, tokens?, Option.map_map, Option.map_map]
    rfl
  | digits =>
    have hgroup : Slot.digits.group ++ t =
        '(' :: '[' :: '1' :: '-' :: '9' :: ']' ::
          '[' :: '0' :: '-' :: '9' :: ']' :: '*' :: ')' :: t := rfl
    rw [hgroup, tokens?, tokens?, if_pos (by decide), tokens?, if_pos (by decide), tokens?, tokens?]
    simp only [Option.map_map]
    rfl

theorem factors?_literal {literal : Text} {ts : List Token} (hstar : ts.head? ≠ some .star) :
    factors? none (literalTokens literal ++ ts) =
      (factors? none ts).map (literalFactors literal ++ ·) := by
  induction literal with
  | nil => simp [literalTokens, literalFactors]
  | cons c literal ih =>
    -- a character would be repeated if a star stood behind it
    have hnext : ∀ ts', literalTokens literal ++ ts ≠ .star :: ts' := by
      rintro ts' heq
      cases literal with
      | nil => exact hstar (congrArg List.head? (show ts = .star :: ts' from heq))
      | cons d literal => cases heq
    rw [show literalTokens (c :: literal) ++ ts =
      .single (.only c) :: (literalTokens literal ++ ts) from rfl, factors?, ih, Option.map_map]
    · rfl
    · exact fun ts' heq => hnext ts' heq

theorem factors?_slot (slot : Slot) (ts : List Token) :
    factors? none (slot.tokens ++ ts) = (factors? none ts).map (slot.factor :: ·) := by
  cases slot <;> rfl

/-- Slots with their literals are read as what they are written for. -/
theorem parse_slots (slot : Slot) (rest : List Text) :
    ∃ ts, tokens? ((rest.map (·.flatMap escapeMeta)).flatMap (slot.group ++ ·)) = some ts ∧
      ts.head? ≠ some .star ∧
      factors? none ts =
        some (rest.flatMap fun literal => slot.factor :: literalFactors literal) := by
  induction rest with
  | nil => exact ⟨[], rfl, by simp, rfl⟩
  | cons literal rest ih =>
    obtain ⟨ts, htokens, hstar, hfactors⟩ := ih
    refine ⟨slot.tokens ++ (literalTokens literal ++ ts), ?_,
      by cases slot <;> simp [Slot.tokens], ?_⟩
    · rw [List.map_cons, List.flatMap_cons, List.append_assoc, tokens?_group, tokens?_literal,
        htokens]
      rfl
    · rw [factors?_slot, factors?_literal hstar, hfactors]
      rfl

theorem parse?_expression (p : Pattern) : Regex.parse? p.expression = some p.regex := by
  obtain ⟨slot, first, rest⟩ := p
  obtain ⟨ts, htokens, hstar, hfactors⟩ := parse_slots slot rest
  have hfirst : tokens? (Pattern.expression ⟨slot, first, rest⟩) =
      some (literalTokens first ++ ts) :=
    (tokens?_literal first _).trans (congrArg (Option.map _) htokens)
  rw [Regex.parse?, hfirst, Option.bind_some, factors?_literal hstar, hfactors]
  rfl

example : Regex.parse? (Pattern.expression ⟨.digits, ⟨"-".toList, ["*".toList]⟩⟩) =
    some [.atom (.one (.only '-')), .group [.one (.range '1' '9'), .many (.range '0' '9')],
      .atom (.one (.only '*'))] := by
  decide

end NormalAlgorithm
