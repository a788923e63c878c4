import NormalAlgorithm.Pattern.Expression

/-!
# The text of an expression, character by character

Whatever the literals of a pattern are, a reader that knows nothing but the lexical rules of regular
expressions finds exactly these literals in the expression of the pattern, and a slot between each
two of them. Nothing in a literal can be taken for a slot, for an operator, or for an escape that
reaches into what follows.

Results:
* `lexemes?_escapeMeta`, `lexemes?_group`: what one character and one slot are read as, whatever
  stands behind them.
* `expression_unambiguous`: for either slot, every expression is read as the literals it was written
  for with a slot between each two of them, and different literals have different expressions.
-/

namespace NormalAlgorithm

/-! ## Lexical rules -/

/-- The characters that never stand for themselves in a regular expression. -/
def isOperator (c : Char) : Bool := c ∈ "|\\\x7b\x7d()[]^$+*?.".toList

/-- What the text of an expression is made of. -/
inductive Lexeme where
  /-- A character that stands for itself. -/
  | literal (c : Char)
  | slot (s : Slot)
  deriving DecidableEq, Repr

/-- The lexemes of a text, from left to right. A backslash makes a literal of the character behind
    it, whatever that is; only the number of the hyphen is read as a number. -/
def lexemes? : Text → Option (List Lexeme)
  | [] => some []
  | '\\' :: 'x' :: '2' :: 'd' :: t => (lexemes? t).map (.literal '-' :: ·)
  | '\\' :: c :: t => (lexemes? t).map (.literal c :: ·)
  | '(' :: '.' :: ')' :: t => (lexemes? t).map (.slot .char :: ·)
  | '(' :: '[' :: '1' :: '-' :: '9' :: ']' :: '[' :: '0' :: '-' :: '9' :: ']' :: '*' :: ')' :: t =>
    (lexemes? t).map (.slot .digits :: ·)
  | c :: t => if isOperator c then none else (lexemes? t).map (.literal c :: ·)

/-- A pattern, as lexemes: its literals, with one slot between each two of them. -/
def Pattern.lexemes (p : Pattern) : List Lexeme :=
  p.literals.first.map .literal ++
    p.literals.rest.flatMap fun literal => .slot p.slot :: literal.map .literal

/-- The literals between the slots. -/
def literalsOf : List Lexeme → Pieces
  | [] => ⟨[], []⟩
  | .literal c :: ls => ⟨c :: (literalsOf ls).first, (literalsOf ls).rest⟩
  | .slot _ :: ls => ⟨[], (literalsOf ls).toList⟩

/-! ## The expression of a pattern -/

/-- Every character that has a meaning in an expression is escaped there. -/
theorem isMeta_eq_isOperator : isMeta = isOperator := rfl

theorem lexemes?_escapeMeta (c : Char) (t : Text) :
    lexemes? (escapeMeta c ++ t) = (lexemes? t).map (.literal c :: ·) := by
  by_cases hhyphen : c = '-'
  · subst hhyphen
    rfl
  by_cases hmeta : isMeta c = true
  · -- the letter that begins a number is not escaped, so the backslash stands before the character
    have hx : c ≠ 'x' := by
      rintro rfl
      revert hmeta
      decide
    simp [escapeMeta, hhyphen, hmeta, lexemes?, hx]
  · have hne : ∀ d, isMeta d = true → c ≠ d := by
      rintro d hd rfl
      exact hmeta hd
    have hoperator : isOperator c = false := by simpa [isMeta_eq_isOperator] using hmeta
    simp [escapeMeta, hhyphen, hmeta, lexemes?, hne '\\' rfl, hne '(' rfl, hoperator]

theorem lexemes?_literal (literal t : Text) :
    lexemes? (literal.flatMap escapeMeta ++ t) =
      (lexemes? t).map (literal.map Lexeme.literal ++ ·) := by
  induction literal with
  | nil => simp
  | cons c literal ih =>
    rw [List.flatMap_cons, List.append_assoc, lexemes?_escapeMeta, ih, Option.map_map]
    rfl

theorem lexemes?_group (slot : Slot) (t : Text) :
    lexemes? (slot.group ++ t) = (lexemes? t).map (.slot slot :: ·) := by
  cases slot <;> rfl

/-- Slots with their literals are read as what they are written for. -/
theorem lexemes?_slots (slot : Slot) (rest : List Text) :
    lexemes? ((rest.map (·.flatMap escapeMeta)).flatMap (slot.group ++ ·)) =
      some (rest.flatMap fun literal => .slot slot :: literal.map .literal) := by
  induction rest with
  | nil => rfl
  | cons literal rest ih =>
    rw [List.map_cons, List.flatMap_cons, List.append_assoc, lexemes?_group, lexemes?_literal, ih]
    rfl

theorem lexemes?_expression (p : Pattern) : lexemes? p.expression = some p.lexemes :=
  calc lexemes? p.expression
    _ = (lexemes? ((p.literals.rest.map (·.flatMap escapeMeta)).flatMap (p.slot.group ++ ·))).map
          (p.literals.first.map Lexeme.literal ++ ·) := lexemes?_literal p.literals.first _
    _ = some p.lexemes := by rw [lexemes?_slots]; rfl

/-! ## The literals of an expression -/

theorem literalsOf_literal (literal : Text) (ls : List Lexeme) :
    literalsOf (literal.map Lexeme.literal ++ ls) =
      ⟨literal ++ (literalsOf ls).first, (literalsOf ls).rest⟩ := by
  induction literal with
  | nil => rfl
  | cons c literal ih => simp [literalsOf, ih]

theorem literalsOf_slots (slot : Slot) (rest : List Text) :
    literalsOf (rest.flatMap fun literal => .slot slot :: literal.map .literal) = ⟨[], rest⟩ := by
  induction rest with
  | nil => rfl
  | cons literal rest ih =>
    rw [List.flatMap_cons, List.cons_append, literalsOf, literalsOf_literal, ih]
    simp [Pieces.toList]

theorem literalsOf_lexemes (p : Pattern) : literalsOf p.lexemes = p.literals := by
  rw [Pattern.lexemes, literalsOf_literal, literalsOf_slots, List.append_nil]

/-- An expression is read as the literals it was written for, with one slot between each two of
    them. Patterns with the same slot and different literals have different expressions. -/
theorem expression_unambiguous (slot : Slot) :
    (∀ literals,
      lexemes? (Pattern.expression ⟨slot, literals⟩) = some (Pattern.lexemes ⟨slot, literals⟩)) ∧
    Function.Injective fun literals => Pattern.expression ⟨slot, literals⟩ := by
  refine ⟨fun literals => lexemes?_expression ⟨slot, literals⟩, fun literals others hsame => ?_⟩
  have hread : some (Pattern.lexemes ⟨slot, literals⟩) = some (Pattern.lexemes ⟨slot, others⟩) := by
    rw [← lexemes?_expression, ← lexemes?_expression]
    exact congrArg lexemes? hsame
  calc literals
    _ = literalsOf (Pattern.lexemes ⟨slot, literals⟩) := (literalsOf_lexemes ⟨slot, literals⟩).symm
    _ = literalsOf (Pattern.lexemes ⟨slot, others⟩) := by rw [Option.some.inj hread]
    _ = others := literalsOf_lexemes ⟨slot, others⟩

/-- A literal that is written like a slot, or like the number of a hyphen, is still a literal. -/
example : literalsOf <$> lexemes? (Pattern.expression ⟨.char, ⟨"(.)".toList, ["\\x2d".toList]⟩⟩) =
    some ⟨"(.)".toList, ["\\x2d".toList]⟩ := by
  decide

end NormalAlgorithm
