import NormalAlgorithm.Pattern.Basic

/-!
# Reading digit slots

A digit slot can take more or less of a run, and what it should take depends on whether the rest of
the pattern can still be read behind it. Trying all ways one after the other takes a time that
grows with every slot. So the pattern is read from its last slot to its first, each time for all
ends of the text at once: an entry for each end of the text says how the slots from here on are
read at that place, if they can be read there at all.

Results:
* `length_afterLiteral`, `length_moreDigits`, `length_ledBySlot`, `length_readDigits`: there is
  one entry for each end of the text.
-/

namespace NormalAlgorithm

/-- The ends of a text, from the whole text to the empty one. -/
def suffixes : Text → List Text
  | [] => [[]]
  | c :: t => (c :: t) :: suffixes t

/-- How something is read at each end of a text. -/
abbrev Table := List (Option Reading)

/-! ## Literals -/

/-- The readings with a literal in front. The given table holds, for each end of the text, the
    reading that starts as far behind as the literal is long. -/
def afterLiteral (literal : Text) : Text → Table → Table
  | [], behind => [if literal.isEmpty then behind.headD none else none]
  | c :: t, behind =>
    (if (stripStart? literal (c :: t)).isSome then behind.headD none else none) ::
      afterLiteral literal t behind.tail

/-! ## Slots -/

/-- The readings with as many digits in front as possible, perhaps none. -/
def moreDigits : Text → Table → List (Option (Text × Reading))
  | [], next => [(next.headD none).map fun r => ([], r)]
  | c :: t, next =>
    let later := moreDigits t next.tail
    let taken := if c.isDigit then (later.headD none).map fun (run, r) => (c :: run, r) else none
    taken.or ((next.headD none).map fun r => ([], r)) :: later

/-- The readings with a slot in front, which takes a leading digit and the digits behind it. -/
def ledBySlot : Text → List (Option (Text × Reading)) → Table
  | [], _ => [none]
  | c :: t, runs =>
    (if isLeadingDigit c then
      (runs.tail.headD none).map fun (run, r) => ⟨(c :: run) :: r.groups, r.after⟩
    else none) :: ledBySlot t runs.tail

/-- The readings of slots, each followed by its literal. -/
def readDigits (t : Text) : List Text → Table
  | [] => (suffixes t).map fun u => some ⟨[], u⟩
  | literal :: rest =>
    ledBySlot t (moreDigits t (afterLiteral literal t ((readDigits t rest).drop literal.length)))

/-! ## Size -/

@[simp] theorem length_suffixes (t : Text) : (suffixes t).length = t.length + 1 := by
  induction t with
  | nil => rfl
  | cons c t ih => simp [suffixes, ih]

@[simp] theorem length_afterLiteral (literal t : Text) (behind : Table) :
    (afterLiteral literal t behind).length = t.length + 1 := by
  induction t generalizing behind with
  | nil => rfl
  | cons c t ih => simp [afterLiteral, ih]

@[simp] theorem length_moreDigits (t : Text) (next : Table) :
    (moreDigits t next).length = t.length + 1 := by
  induction t generalizing next with
  | nil => rfl
  | cons c t ih => simp [moreDigits, ih]

@[simp] theorem length_ledBySlot (t : Text) (runs : List (Option (Text × Reading))) :
    (ledBySlot t runs).length = t.length + 1 := by
  induction t generalizing runs with
  | nil => rfl
  | cons c t ih => simp [ledBySlot, ih]

@[simp] theorem length_readDigits (t : Text) (literals : List Text) :
    (readDigits t literals).length = t.length + 1 := by
  cases literals <;> simp [readDigits]

end NormalAlgorithm
