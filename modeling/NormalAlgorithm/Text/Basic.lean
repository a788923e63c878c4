/-!
# Texts and their size

A text is the list of its characters. Its size is measured in 16-bit units, where a character
beyond the first plane counts twice; a trace line also gives the size in bytes.

Results:
* `units_nil`, `units_cons`, `units_append`: the size of a text is the sum over its characters.
* `stripStart?_eq_some_iff`: a beginning can be taken off a text exactly when the text starts
  with it, and what remains is the rest.
* `stripStart?_eq_none_iff`: it cannot be taken off exactly when the text does not start with it.
-/

namespace NormalAlgorithm

/-- A text is the list of its characters. -/
abbrev Text := List Char

/-! ## Size -/

/-- The number of 16-bit units that a character takes. -/
def charUnits (c : Char) : Nat := if c.toNat < 0x10000 then 1 else 2

/-- The size of a text in 16-bit units. All limits on the length of a text are in this unit. Model
    of `utf16_len` (lexer). -/
def units (t : Text) : Nat := t.foldl (fun n c => n + charUnits c) 0

/-- The size of a text in bytes. -/
def bytes (t : Text) : Nat := t.foldl (fun n c => n + c.utf8Size) 0

private theorem foldl_charUnits (t : Text) (n : Nat) :
    t.foldl (fun n c => n + charUnits c) n = n + units t := by
  induction t generalizing n with
  | nil => rfl
  | cons c t ih => rw [units, List.foldl_cons, List.foldl_cons, ih, ih]; omega

@[simp] theorem units_nil : units [] = 0 := rfl

@[simp] theorem units_cons (c : Char) (t : Text) : units (c :: t) = charUnits c + units t := by
  rw [units, List.foldl_cons, foldl_charUnits, Nat.zero_add]

@[simp] theorem units_append (s t : Text) : units (s ++ t) = units s + units t := by
  induction s with
  | nil => simp
  | cons c s ih => rw [List.cons_append, units_cons, units_cons, ih, Nat.add_assoc]

/-! ## Beginnings -/

/-- What remains of a text after the given beginning, if it starts with it. Model of
    `strip_prefix`. -/
def stripStart? : Text → Text → Option Text
  | [], t => some t
  | _ :: _, [] => none
  | b :: bs, c :: t => if b = c then stripStart? bs t else none

theorem stripStart?_eq_some_iff {b t r : Text} : stripStart? b t = some r ↔ t = b ++ r := by
  induction b generalizing t with
  | nil => simp [stripStart?]
  | cons x b ih =>
    cases t with
    | nil => simp [stripStart?]
    | cons c t =>
      by_cases h : x = c
      · simp [stripStart?, h, ih]
      · simp [stripStart?, h, Ne.symm h]

theorem stripStart?_append (b t : Text) : stripStart? b (b ++ t) = some t :=
  stripStart?_eq_some_iff.mpr rfl

theorem stripStart?_eq_none_iff {b t : Text} : stripStart? b t = none ↔ ∀ r, t ≠ b ++ r := by
  simp only [Option.eq_none_iff_forall_ne_some, ne_eq, stripStart?_eq_some_iff]

theorem stripStart?_of_not_isPrefix {b t : Text} (h : ¬ b <+: t) : stripStart? b t = none :=
  stripStart?_eq_none_iff.mpr fun rest hrest => h ⟨rest, hrest.symm⟩

end NormalAlgorithm
