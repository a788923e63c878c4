import NormalAlgorithm.Proofs.Escape.Cuts

/-!
# One cut and all cuts

A statement is cut once, at its first equals sign, and lists are cut at every separator. Both ways
of cutting stop at the same place first. The one cut leaves what stands behind it as it is, whatever
separators it contains, and the pieces behind the first are what it would be cut into.

Results:
* `CutInto.intercalate`: pieces that were cut at one character are put together again with it.
* `CutInto.cutAt?_eq`: where the pieces say that a text is cut at the first separator.
* `cutAt?_eq_split`: the first cut from all cuts.
-/

namespace NormalAlgorithm

section

variable {c : Char} {t last : Text} {before : List Text}

theorem CutInto.intercalate (h : CutInto (· = c) t before last) :
    [c].intercalate (before ++ [last]) = t := by
  induction h with
  | last _ => simp
  | @cut s t last d before _ separates _ _ ih =>
    obtain rfl : d = c := of_decide_eq_true separates
    rw [List.cons_append, List.intercalate_cons_of_ne_nil (by simp), ih, List.append_assoc,
      List.singleton_append]

/-- The text is cut behind the first piece, if this is not the last one. -/
theorem CutInto.cutAt?_eq (h : CutInto (· = c) t before last) :
    cutAt? c t = before.head?.map fun key => (key, [c].intercalate (before.tail ++ [last])) := by
  cases h with
  | last uncut =>
    refine cutAt?_eq_none_iff.mpr fun hmem => ?_
    simpa [Glyph.separates] using uncut _ hmem
  | @cut s t _ d before closed separates plain behind =>
    obtain rfl : d = c := of_decide_eq_true separates
    rw [cutAt?_of_sealed closed plain, List.head?_cons, Option.map_some, List.tail_cons,
      behind.intercalate]

end

/-- **The first cut is the first of all cuts.** A statement without an equals sign to cut at is one
    piece if it is cut at every equals sign, and no other statement is. Of any other statement the
    key is the first piece, and the value is the other pieces with equals signs between them. The
    key, an equals sign and the value are the statement, and the key does not end in an unpaired
    backslash. -/
theorem cutAt?_eq_split (t : Text) :
    let pieces := (split (· = '=') t).toList
    (cutAt? '=' t = none ↔ pieces.length = 1) ∧
    (pieces.length ≠ 1 → ∃ key values, pieces = key :: values ∧
      cutAt? '=' t = some (key, ['='].intercalate values)) ∧
    ∀ key value, cutAt? '=' t = some (key, value) →
      key ++ ['='] ++ value = t ∧ Even (trailingBackslashes key) := by
  intro pieces
  obtain ⟨before, last, hcut⟩ := exists_cutInto (· = '=') t
  have hpieces : pieces = before ++ [last] := hcut.toList_split
  have hfirst := hcut.cutAt?_eq
  refine ⟨?_, ?_, ?_⟩
  · rw [hpieces, hfirst]
    cases before <;> simp
  · intro hlength
    cases before with
    | nil => exact absurd (congrArg List.length hpieces) hlength
    | cons key before => exact ⟨key, before ++ [last], hpieces, hfirst⟩
  · intro key value h
    obtain ⟨rfl, hsealed⟩ := (cutAt?_eq_some_iff (by decide)).mp h
    exact ⟨by simp, complete_iff.mp hsealed.complete⟩

/-- The second equals sign is one of the value. -/
example : cutAt? '=' "a\\=b=c=d".toList = some ("a\\=b".toList, "c=d".toList) := rfl

end NormalAlgorithm
