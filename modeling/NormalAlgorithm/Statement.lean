import NormalAlgorithm.Escape.Cut

/-!
# Statements

A program is a sequence of statements, separated by bare semicolons and line feeds. A statement
gives the initial text, or a rule, or a directive that clones rules; anything else is a comment.
The key of a rule or directive stands before the first bare equals sign, and a keyword of three
lowercase letters and a space may stand before the key. Keys and values are raw text.

Results:
* `read_initial`, `read_comment_iff`: which statements give the initial text and which are comments.
* `ofKeyword?_keyword`: the keyword of a kind of rule is read as that kind.
-/

namespace NormalAlgorithm

/-! ## Rules and directives as they are written -/

/-- What a rule does with the characters that its key captures, and whether it ends the run. Model
    of `Keyword`. -/
inductive RuleKind where
  /-- Captured characters are copied. -/
  | plain
  /-- Captured characters are copied, and the run ends. -/
  | final
  /-- Captured numbers are written as the characters that they number. -/
  | character
  /-- Captured characters are written as their numbers. -/
  | codePoint
  deriving DecidableEq, Repr

/-- A rule as it is written: key and value are raw text. Model of `RawRule`. -/
structure RawRule where
  kind : RuleKind
  key : Text
  value : Text
  deriving DecidableEq, Repr

/-- A directive makes, out of each rule whose key holds the token, one rule for each value. Model of
    `MetaRule`. -/
structure Directive where
  token : Text
  values : Text
  deriving DecidableEq, Repr

/-! ## Keywords -/

namespace RuleKind

/-- The word before the key of a rule; plain rules have none. -/
def keyword? : RuleKind → Option Text
  | plain => none
  | final => some "fin".toList
  | character => some "chr".toList
  | codePoint => some "ord".toList

/-- The kind of rule that a word announces. -/
def ofKeyword? (word : Text) : Option RuleKind :=
  if word = "fin".toList then some final
  else if word = "chr".toList then some character
  else if word = "ord".toList then some codePoint
  else none

theorem ofKeyword?_keyword {k : RuleKind} {word : Text} (h : k.keyword? = some word) :
    ofKeyword? word = some k := by
  cases k <;> simp [keyword?] at h <;> subst h <;> decide

end RuleKind

/-- Whether a word announces a directive. -/
def isDirectiveWord (word : Text) : Bool := word = "rep".toList || word = "for".toList

/-- A key with three lowercase letters and a space in front: the word, and the key behind it. Model
    of the test for a keyword in `parse_statements` (parser). -/
def cutWord? : Text → Option (Text × Text)
  | a :: b :: c :: ' ' :: key =>
    if a.isLower && b.isLower && c.isLower then some ([a, b, c], key) else none
  | _ => none

/-! ## Statements -/

/-- The meaning of one statement. -/
inductive Statement where
  /-- Gives the initial text, as raw text. -/
  | initial (raw : Text)
  /-- Adds a rule. -/
  | rule (r : RawRule)
  /-- Adds a directive. -/
  | directive (d : Directive)
  /-- Starts with a word that is no keyword. -/
  | unknown (word : Text)
  /-- Means nothing. -/
  | comment
  deriving DecidableEq, Repr

namespace Statement

/-- The statement with this word in front of the key. Model of `keyword_prefix` (parser). -/
def ofWord (word key value : Text) : Statement :=
  if isDirectiveWord word then .directive ⟨key, value⟩
  else match RuleKind.ofKeyword? word with
    | some kind => .rule ⟨kind, key, value⟩
    | none => .unknown word

/-- The statement with this key, keyword included, and this value. -/
def ofKeyValue (key value : Text) : Statement :=
  match cutWord? key with
  | some (word, key) => ofWord word key value
  | none => .rule ⟨.plain, key, value⟩

/-- Reads one statement. Model of how `parse_statements` (parser) tells statements apart. -/
def read (t : Text) : Statement :=
  match stripStart? "str ".toList t with
  | some raw => .initial raw
  | none =>
    match cutAt? '=' t with
    | some (key, value) => ofKeyValue key value
    | none => .comment

theorem read_initial (raw : Text) : read ("str ".toList ++ raw) = .initial raw := by
  rw [read, stripStart?_append]

private theorem ofKeyValue_ne_comment (key value : Text) : ofKeyValue key value ≠ .comment := by
  unfold ofKeyValue ofWord
  repeat' split
  all_goals simp

theorem read_comment_iff {t : Text} :
    read t = .comment ↔ stripStart? "str ".toList t = none ∧ .bare '=' ∉ glyphs t := by
  rw [← cutAt?_eq_none_iff, read]
  cases stripStart? "str ".toList t with
  | some raw => simp
  | none => cases cutAt? '=' t with
    | none => simp
    | some kv => simp [ofKeyValue_ne_comment]

end Statement

/-- Whether a character ends a statement. -/
def endsStatement (c : Char) : Bool := c = ';' || c = '\n'

/-- The statements of a program, from first to last. Model of how `parse_statements` (parser) cuts a
    source. -/
def statements (t : Text) : List Statement := (split endsStatement t).toList.map Statement.read

end NormalAlgorithm
