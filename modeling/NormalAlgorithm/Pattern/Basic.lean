import NormalAlgorithm.Text.Pieces

/-!
# Patterns

The key of a rule is a pattern: literal pieces with a slot between each two of them. A slot takes
either one character, whatever it is, or a run of digits without a leading zero. A text matches
where it can be cut into the pieces of the pattern with something acceptable in each slot.

Of all matches the one that starts first counts. Among those that start there, each slot takes as
much as it can, earlier slots first.

Results:
* `Reads.text_eq`: a reading accounts for every character of the text.
-/

namespace NormalAlgorithm

/-- What a slot of a pattern takes. -/
inductive Slot where
  /-- One character. -/
  | char
  /-- Digits, the first of which is not zero. -/
  | digits
  deriving DecidableEq, Repr

/-- Whether a digit may stand first in a run. -/
def isLeadingDigit (c : Char) : Bool := c.isDigit && c ≠ '0'

/-- Whether a slot may take a text. -/
def Slot.accepts : Slot → Text → Bool
  | .char, t => t.length = 1
  | .digits, [] => false
  | .digits, c :: t => isLeadingDigit c && t.all Char.isDigit

/-- Literal pieces with a slot between each two of them. -/
structure Pattern where
  slot : Slot
  literals : Pieces
  deriving DecidableEq, Repr

/-- The number of slots. -/
def Pattern.slots (p : Pattern) : Nat := p.literals.cuts

/-- What the slots took from the front of a text, and the text behind the last piece. -/
structure Reading where
  groups : List Text
  after : Text
  deriving DecidableEq, Repr

/-- A reading somewhere in a text, with the text before it. -/
structure Match where
  before : Text
  groups : List Text
  after : Text
  deriving DecidableEq, Repr

/-! ## What it means to match -/

/-- Slots, each followed by its literal, can be read at the front of a text. -/
inductive Reads (slot : Slot) : List Text → Text → Reading → Prop
  | done (t : Text) : Reads slot [] t ⟨[], t⟩
  | slot {g : Text} (literal : Text) {rest : List Text} {t : Text} {r : Reading}
      (accepted : slot.accepts g = true) (further : Reads slot rest t r) :
      Reads slot (literal :: rest) (g ++ literal ++ t) ⟨g :: r.groups, r.after⟩

/-- The text of groups, each followed by its literal. -/
def weave : List Text → List Text → Text
  | g :: gs, literal :: rest => g ++ literal ++ weave gs rest
  | _, _ => []

theorem Reads.text_eq {slot : Slot} {literals : List Text} {t : Text} {r : Reading}
    (h : Reads slot literals t r) : t = weave r.groups literals ++ r.after := by
  induction h with
  | done t => rfl
  | slot literal _ _ ih => simp [weave, ← ih]

/-- A pattern matches a text with this text before the match, these groups and this text after. -/
def Pattern.Matches (p : Pattern) (t : Text) (m : Match) : Prop :=
  ∃ u, t = m.before ++ p.literals.first ++ u ∧ Reads p.slot p.literals.rest u ⟨m.groups, m.after⟩

end NormalAlgorithm
