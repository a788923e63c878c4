import NormalAlgorithm.Pattern.Basic
import Mathlib.Tactic.Tauto

/-!
# The chosen match

A match, written out in full: the text before it, the literals with one group between each two of
them, and the text after it. Most texts can be cut in this way at several places, and with digit
slots also in several ways at one place. The match that counts starts first, and of those that
start there it is the one whose list of group lengths is the greatest, earlier groups first.

Results:
* `Slot.accepts_iff`: the test of a slot accepts what the slot takes.
* `matches_iff_decomposes`: the relation that reads slot by slot is the one written out.
* `decomposes_iff_of_noSlots`: the matches of a pattern without slots.
* `Chooses.unique`: at most one match is chosen.
-/

namespace NormalAlgorithm

/-! ## What a slot takes -/

/-- What a slot takes: any one character, or at least one digit and no zero in front. -/
def Slot.Takes : Slot → Text → Prop
  | .char, g => ∃ c, g = [c]
  | .digits, g => g ≠ [] ∧ (∀ c ∈ g, c.isDigit = true) ∧ g.head? ≠ some '0'

theorem Slot.accepts_iff {slot : Slot} {g : Text} : slot.accepts g = true ↔ slot.Takes g := by
  cases slot with
  | char => simp [accepts, Takes, List.length_eq_one_iff]
  | digits =>
    cases g with
    | nil => simp [accepts, Takes]
    | cons c g =>
      simp only [accepts, Takes, isLeadingDigit, Bool.and_eq_true, List.all_eq_true,
        decide_eq_true_eq, List.forall_mem_cons, List.head?_cons, ne_eq, reduceCtorEq,
        not_false_eq_true, Option.some.injEq, true_and]
      tauto

/-! ## Matches, written out -/

/-- How much each group takes, in order. -/
def lengths (groups : List Text) : List Nat := groups.map List.length

/-- A text is cut into the text before the match, the literals of the pattern with one acceptable
    group between each two of them, and the text after the match. -/
structure Pattern.Decomposes (p : Pattern) (t : Text) (m : Match) : Prop where
  text_eq : t = m.before ++ (p.literals.first ++ weave m.groups p.literals.rest) ++ m.after
  groups_length : m.groups.length = p.slots
  taken : ∀ g ∈ m.groups, p.slot.Takes g

/-- The match that counts: none starts earlier, and every other one that starts at the same place
    has a smaller list of group lengths. -/
structure Pattern.Chooses (p : Pattern) (t : Text) (m : Match) : Prop where
  decomposes : p.Decomposes t m
  leftmost : ∀ m', p.Decomposes t m' → m.before.length ≤ m'.before.length
  greedy : ∀ m', p.Decomposes t m' → m'.before.length = m.before.length →
    m' = m ∨ List.Lex (· < ·) (lengths m'.groups) (lengths m.groups)

namespace Pattern

/-- Without slots, a match is an occurrence of the only literal. -/
theorem decomposes_iff_of_noSlots {p : Pattern} (hslots : p.literals.rest = []) {t : Text}
    {m : Match} :
    p.Decomposes t m ↔ m.groups = [] ∧ t = m.before ++ p.literals.first ++ m.after := by
  have hcuts : p.slots = 0 := by rw [slots, Pieces.cuts, hslots, List.length_nil]
  constructor
  · rintro ⟨rfl, hlength, -⟩
    have hgroups : m.groups = [] := List.length_eq_zero_iff.mp (hlength.trans hcuts)
    exact ⟨hgroups, by simp [hgroups, hslots, weave]⟩
  · rintro ⟨hgroups, rfl⟩
    exact ⟨by simp [hgroups, hslots, weave], by rw [hgroups, hcuts, List.length_nil],
      by simp [hgroups]⟩

theorem Chooses.unique {p : Pattern} {t : Text} {m m' : Match} (h : p.Chooses t m)
    (h' : p.Chooses t m') : m = m' := by
  have hlen : m.before.length = m'.before.length :=
    Nat.le_antisymm (h.leftmost m' h'.decomposes) (h'.leftmost m h.decomposes)
  rcases h'.greedy m h.decomposes hlen with heq | hlt
  · exact heq
  rcases h.greedy m' h'.decomposes hlen.symm with heq | hgt
  · exact heq.symm
  · exact absurd hgt (List.lt_asymm (α := Nat) hlt)

end Pattern

/-! ## Reading slot by slot -/

/-- Slots can be read at the front of a text exactly when the text is woven from as many groups
    as there are slots, each of which a slot takes, and the literals. -/
theorem reads_iff {slot : Slot} {literals : List Text} {t : Text} {r : Reading} :
    Reads slot literals t r ↔
      t = weave r.groups literals ++ r.after ∧ r.groups.length = literals.length ∧
        ∀ g ∈ r.groups, slot.Takes g := by
  constructor
  · intro h
    refine ⟨h.text_eq, ?_⟩
    induction h with
    | done t => simp
    | slot literal accepted _ ih =>
      exact ⟨congrArg (· + 1) ih.1, List.forall_mem_cons.mpr ⟨Slot.accepts_iff.mp accepted, ih.2⟩⟩
  · obtain ⟨groups, after⟩ := r
    rintro ⟨rfl, hlen, htakes⟩
    induction literals generalizing groups with
    | nil =>
      obtain rfl := List.eq_nil_of_length_eq_zero hlen
      exact .done after
    | cons literal rest ih =>
      cases groups with
      | nil => simp at hlen
      | cons g gs =>
        obtain ⟨hg, hgs⟩ := List.forall_mem_cons.mp htakes
        have further := ih gs (by simpa using hlen) hgs
        simpa [weave, List.append_assoc] using
          Reads.slot literal (Slot.accepts_iff.mpr hg) further

/-- The relation that reads slot by slot and the decomposition written out are the same. -/
theorem Pattern.matches_iff_decomposes {p : Pattern} {t : Text} {m : Match} :
    p.Matches t m ↔ p.Decomposes t m := by
  constructor
  · rintro ⟨u, rfl, hread⟩
    obtain ⟨rfl, hlen, hacc⟩ := reads_iff.mp hread
    exact ⟨by simp, hlen, hacc⟩
  · rintro ⟨rfl, hlen, hacc⟩
    exact ⟨weave m.groups p.literals.rest ++ m.after, by simp, reads_iff.mpr ⟨rfl, hlen, hacc⟩⟩

end NormalAlgorithm
