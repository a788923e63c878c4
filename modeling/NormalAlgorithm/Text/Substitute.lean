import NormalAlgorithm.Text.Basic

/-!
# Substitution in texts

Putting one text in place of every occurrence of another. Occurrences are found from left to
right and do not overlap. The empty text occurs before every character and at the end.

Results:
* `occursIn_iff`: a text occurs in another exactly when the other one can be cut around it.
* `replaceAll_of_starts`, `replaceAll_of_not_starts`: what happens at the front of a text, which
  determines the replacement of a non-empty needle.
* `replaceAll_singleton`: a single character is replaced wherever it stands.
-/

namespace NormalAlgorithm

/-! ## Occurrence -/

/-- Whether `needle` stands somewhere in a text. Model of `contains`. -/
def occursIn (needle : Text) : Text → Bool
  | [] => needle.isEmpty
  | c :: t => (stripStart? needle (c :: t)).isSome || occursIn needle t

theorem occursIn_iff {needle t : Text} :
    occursIn needle t = true ↔ ∃ before after, t = before ++ needle ++ after := by
  induction t with
  | nil => simp [occursIn, List.isEmpty_iff]
  | cons c t ih =>
    rw [occursIn, Bool.or_eq_true, ih, Option.isSome_iff_exists]
    constructor
    · rintro (⟨r, hr⟩ | ⟨u, v, rfl⟩)
      · exact ⟨[], r, by simpa using stripStart?_eq_some_iff.mp hr⟩
      · exact ⟨c :: u, v, rfl⟩
    · rintro ⟨_ | ⟨d, u⟩, v, h⟩
      · exact .inl ⟨v, stripStart?_eq_some_iff.mpr (by simpa using h)⟩
      · exact .inr ⟨u, v, (List.cons.inj h).2⟩

/-! ## Replacement -/

/-- Replacement of the non-empty needle `n :: ns`. The number counts the characters of an
    occurrence that are still to be passed over. -/
def replaceFrom (n : Char) (ns value : Text) : Nat → Text → Text
  | _, [] => []
  | skip + 1, _ :: t => replaceFrom n ns value skip t
  | 0, c :: t =>
    if (stripStart? (n :: ns) (c :: t)).isSome then value ++ replaceFrom n ns value ns.length t
    else c :: replaceFrom n ns value 0 t

/-- Puts `value` in place of every occurrence of `needle`. Model of `replace`. -/
def replaceAll (needle value : Text) (t : Text) : Text :=
  match needle with
  | [] => value ++ t.flatMap (fun c => c :: value)
  | n :: ns => replaceFrom n ns value 0 t

theorem replaceFrom_skip (n : Char) (ns value u t : Text) :
    replaceFrom n ns value u.length (u ++ t) = replaceFrom n ns value 0 t := by
  induction u with
  | nil => rfl
  | cons c u ih => rw [List.length_cons, List.cons_append, replaceFrom, ih]

@[simp] theorem replaceAll_nil (n : Char) (ns value : Text) :
    replaceAll (n :: ns) value [] = [] := by
  simp [replaceAll, replaceFrom]

/-- An occurrence at the front is replaced, and the search goes on behind it. -/
theorem replaceAll_of_starts (n : Char) (ns value rest : Text) :
    replaceAll (n :: ns) value (n :: ns ++ rest) = value ++ replaceAll (n :: ns) value rest := by
  have h : stripStart? (n :: ns) (n :: (ns ++ rest)) = some rest := stripStart?_append _ rest
  rw [replaceAll, List.cons_append, replaceFrom, h, Option.isSome_some, if_pos rfl,
    replaceFrom_skip, replaceAll]

/-- A character at which no occurrence starts is kept. -/
theorem replaceAll_of_not_starts {n : Char} {ns : Text} (value : Text) {c : Char} {t : Text}
    (h : stripStart? (n :: ns) (c :: t) = none) :
    replaceAll (n :: ns) value (c :: t) = c :: replaceAll (n :: ns) value t := by
  rw [replaceAll, replaceFrom, h]
  rfl

theorem replaceAll_singleton (x : Char) (value t : Text) :
    replaceAll [x] value t = t.flatMap (fun c => if c = x then value else [c]) := by
  induction t with
  | nil => simp
  | cons c t ih =>
    by_cases h : c = x
    · subst h
      simpa [ih] using replaceAll_of_starts c [] value t
    · rw [replaceAll_of_not_starts value (by simp [stripStart?, Ne.symm h]), ih]
      simp [h]

end NormalAlgorithm
