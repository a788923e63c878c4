import NormalAlgorithm.Pattern.Digits

/-!
# Finding a pattern

The leftmost match of a pattern in a text. A slot that takes one character leaves no choice, so
such a pattern is tried at one place after the other. A pattern of digit slots is read at all
places at once.

Results:
* `readChars_reads`: what is read character by character is a reading.
-/

namespace NormalAlgorithm

/-! ## One character a slot -/

/-- Reads slots of one character, each followed by its literal, at the front of a text. -/
def readChars : List Text → Text → Option Reading
  | [], t => some ⟨[], t⟩
  | _ :: _, [] => none
  | literal :: rest, c :: t =>
    match stripStart? literal t with
    | none => none
    | some u => (readChars rest u).map fun r => ⟨[c] :: r.groups, r.after⟩

theorem readChars_reads {literals : List Text} {t : Text} {r : Reading}
    (h : readChars literals t = some r) : Reads .char literals t r := by
  induction literals generalizing t r with
  | nil => cases Option.some.inj h; exact .done t
  | cons literal rest ih =>
    cases t with
    | nil => simp [readChars] at h
    | cons c t =>
      rw [readChars] at h
      cases hu : stripStart? literal t with
      | none => simp [hu] at h
      | some u =>
        rw [hu, Option.map_eq_some_iff] at h
        obtain ⟨r', hr, rfl⟩ := h
        rw [stripStart?_eq_some_iff.mp hu]
        exact .slot literal (g := [c]) rfl (ih hr)

/-- Reads a pattern of such slots, its first literal included, at the front of a text. -/
def readHere (literals : Pieces) (t : Text) : Option Reading :=
  match stripStart? literals.first t with
  | none => none
  | some u => readChars literals.rest u

/-! ## The leftmost place -/

/-- The first place at which something can be read, and the reading. Places are counted from `n`. -/
def firstPlace (read : Text → Option Reading) : Nat → Text → Option (Nat × Reading)
  | n, [] => (read []).map fun r => (n, r)
  | n, c :: t =>
    match read (c :: t) with
    | some r => some (n, r)
    | none => firstPlace read (n + 1) t

/-- The first entry of a table that holds a reading. Entries are counted from `n`. -/
def firstEntry : Nat → Table → Option (Nat × Reading)
  | _, [] => none
  | n, some r :: _ => some (n, r)
  | n, none :: entries => firstEntry (n + 1) entries

/-! ## Patterns -/

namespace Pattern

/-- The place of the leftmost match, and the reading there. -/
def locate? (p : Pattern) (t : Text) : Option (Nat × Reading) :=
  match p.slot with
  | .char => firstPlace (readHere p.literals) 0 t
  | .digits =>
    let first := p.literals.first
    firstEntry 0 (afterLiteral first t ((readDigits t p.literals.rest).drop first.length))

/-- The leftmost match of a pattern in a text. Model of `captures` of the matcher of a
    `CompiledRule`. -/
def find? (p : Pattern) (t : Text) : Option Match :=
  (p.locate? t).map fun (n, r) => ⟨t.take n, r.groups, r.after⟩

example : find? ⟨.digits, ⟨[], ["0".toList]⟩⟩ "x660y".toList =
    some ⟨"x".toList, ["66".toList], "y".toList⟩ := by decide +kernel

end Pattern

end NormalAlgorithm
