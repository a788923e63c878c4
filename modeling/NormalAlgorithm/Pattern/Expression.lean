import NormalAlgorithm.Pattern.Basic

/-!
# Patterns as regular expressions

A pattern can be written as a regular expression, in which the characters that mean something
there are escaped and each slot is a group. The trace of a program shows its keys in this form.
-/

namespace NormalAlgorithm

/-- The characters that have a meaning in a regular expression. -/
def isMeta (c : Char) : Bool :=
  c ∈ ['|', '\\', '\x7b', '\x7d', '(', ')', '[', ']', '^', '$', '+', '*', '?', '.']

/-- A character that matches itself. The hyphen is written by its number. Model of one character of
    `escape_literal` (lexer). -/
def escapeMeta (c : Char) : Text :=
  if c = '-' then "\\x2d".toList else if isMeta c then ['\\', c] else [c]

/-- The group that a slot is written as. -/
def Slot.group : Slot → Text
  | .char => "(.)".toList
  | .digits => "([1-9][0-9]*)".toList

/-- The regular expression that a pattern stands for. Model of the pattern that `compile` of a
    `CompiledRule` joins. -/
def Pattern.expression (p : Pattern) : Text :=
  (p.literals.map fun literal => literal.flatMap escapeMeta).joinWith p.slot.group

end NormalAlgorithm
