import NormalAlgorithm.Proofs.Pattern.Backtracking

/-!
# The search finds the chosen match

A pattern is tried at each place of a text in turn. Whatever the kind of its slots, the search is
the same: the first place at which the first literal and a greedy reading behind it can be read.

Results:
* `find?_eq_none_iff`: nothing is found exactly in a text that cannot be cut into a match.
* `find?_eq_some_iff`: what is found is the chosen match, and there is no other result.
-/

namespace NormalAlgorithm

/-! ## The first place -/

theorem firstEntry_eq (f : Text → Option Reading) (n : Nat) (t : Text) :
    firstEntry n ((suffixes t).map f) = firstPlace f n t := by
  induction t generalizing n with
  | nil =>
    cases h : f [] with
    | none => simp [suffixes, firstEntry, firstPlace, h]
    | some r => simp [suffixes, firstEntry, firstPlace, h]
  | cons c t ih =>
    rw [suffixes, List.map_cons, firstPlace]
    cases h : f (c :: t) with
    | none => simpa [firstEntry] using ih (n + 1)
    | some r => rfl

/-- Something can be read at the first place, and nothing at any place before it. -/
theorem firstPlace_eq_some {read : Text → Option Reading} {n k : Nat} {t : Text} {r : Reading}
    (h : firstPlace read n t = some (k, r)) :
    ∃ u v, t = u ++ v ∧ k = n + u.length ∧ read v = some r ∧
      ∀ u' v', t = u' ++ v' → u'.length < u.length → read v' = none := by
  induction t generalizing n with
  | nil =>
    obtain ⟨r', hr, heq⟩ := Option.map_eq_some_iff.mp h
    cases heq
    exact ⟨[], [], rfl, rfl, hr, fun u' v' _ hlt => absurd hlt (Nat.not_lt_zero _)⟩
  | cons c t ih =>
    rw [firstPlace] at h
    cases hread : read (c :: t) with
    | some r' =>
      rw [hread] at h
      cases h
      exact ⟨[], c :: t, rfl, rfl, hread, fun u' v' _ hlt => absurd hlt (Nat.not_lt_zero _)⟩
    | none =>
      rw [hread] at h
      obtain ⟨u, v, rfl, rfl, hr, hbefore⟩ := ih h
      refine ⟨c :: u, v, rfl, by simp only [List.length_cons]; omega, hr, ?_⟩
      intro u' v' heq hlt
      cases u' with
      | nil => rwa [← show c :: (u ++ v) = v' from heq]
      | cons c' u' => exact hbefore u' v' (List.cons.inj heq).2 (Nat.lt_of_succ_lt_succ hlt)

theorem firstPlace_eq_none {read : Text → Option Reading} {n : Nat} {u v : Text}
    (h : firstPlace read n (u ++ v) = none) : read v = none := by
  induction u generalizing n with
  | nil =>
    cases v with
    | nil => exact Option.map_eq_none_iff.mp h
    | cons c v =>
      cases hread : read (c :: v) with
      | none => rfl
      | some r => simp [firstPlace, hread] at h
  | cons c u ih =>
    cases hread : read (c :: (u ++ v)) with
    | none => exact ih (n := n + 1) (by simpa [firstPlace, hread] using h)
    | some r => simp [firstPlace, hread] at h

/-! ## One place -/

namespace Pattern

/-- Reads a pattern at the front of a text. -/
def readFront (p : Pattern) : Text → Option Reading :=
  behindLiteral p.literals.first (readGreedily p.slot p.literals.rest)

theorem locate?_eq (p : Pattern) (t : Text) : p.locate? t = firstPlace p.readFront 0 t := by
  obtain ⟨slot, first, rest⟩ := p
  cases slot with
  | char =>
    have hread : readHere ⟨first, rest⟩ = behindLiteral first (readChars rest) := by
      funext u
      rw [readHere, behindLiteral]
      cases stripStart? first u <;> rfl
    simp only [locate?, hread]
    rfl
  | digits =>
    simp only [locate?, readDigits_eq, afterLiteral_eq, firstEntry_eq]
    rfl

/-- A match begins where the first literal and the slots behind it can be read. -/
theorem decomposes_iff {p : Pattern} {t : Text} {m : Match} :
    p.Decomposes t m ↔
      ∃ u, t = m.before ++ (p.literals.first ++ u) ∧
        Reads p.slot p.literals.rest u ⟨m.groups, m.after⟩ := by
  simp only [← matches_iff_decomposes, Matches, List.append_assoc]

theorem readFront_eq_some {p : Pattern} {t : Text} {r : Reading} (h : p.readFront t = some r) :
    ∃ u, t = p.literals.first ++ u ∧ Greatest p.slot p.literals.rest u r := by
  obtain ⟨u, rfl, hr⟩ := behindLiteral_eq_some_iff.mp h
  exact ⟨u, rfl, readGreedily_greatest hr⟩

/-- Where a match begins, something is read. -/
theorem readFront_ne_none {p : Pattern} {t v : Text} {m : Match} (h : p.Decomposes t m)
    (ht : t = m.before ++ v) : p.readFront v ≠ none := by
  obtain ⟨u, rfl, hreads⟩ := decomposes_iff.mp h
  obtain rfl := List.append_cancel_left ht
  intro hnone
  rw [readFront, behindLiteral, stripStart?_append] at hnone
  exact readGreedily_eq_none_iff.mp hnone _ hreads

/-! ## The whole text -/

/-- What is found is the chosen match. -/
theorem find?_chooses {p : Pattern} {t : Text} {m : Match} (h : p.find? t = some m) :
    p.Chooses t m := by
  rw [find?, locate?_eq] at h
  obtain ⟨⟨k, r⟩, hfirst, rfl⟩ := Option.map_eq_some_iff.mp h
  obtain ⟨u, v, rfl, rfl, hread, hbefore⟩ := firstPlace_eq_some hfirst
  obtain ⟨w, rfl, hreads, hgreatest⟩ := readFront_eq_some hread
  simp only [Nat.zero_add, List.take_left]
  refine ⟨decomposes_iff.mpr ⟨w, rfl, hreads⟩, fun m' hm' => ?_, fun m' hm' hlen => ?_⟩
  · -- an earlier match would have been read at an earlier place
    refine Nat.le_of_not_lt fun hlt => ?_
    obtain ⟨w', htext, -⟩ := decomposes_iff.mp hm'
    exact readFront_ne_none hm' htext (hbefore _ _ htext hlt)
  · obtain ⟨before', groups', after'⟩ := m'
    obtain ⟨w', htext, hreads'⟩ := decomposes_iff.mp hm'
    obtain ⟨rfl, hbehind⟩ := List.append_inj htext hlen.symm
    obtain rfl := List.append_cancel_left hbehind
    rcases hgreatest _ hreads' with heq | hlex
    · cases heq
      exact .inl rfl
    · exact .inr hlex

theorem find?_eq_none_iff {p : Pattern} {t : Text} :
    p.find? t = none ↔ ∀ m, ¬ p.Decomposes t m := by
  constructor
  · intro h m hm
    rw [find?, locate?_eq, Option.map_eq_none_iff] at h
    obtain ⟨w, htext, -⟩ := decomposes_iff.mp hm
    rw [htext] at h
    exact readFront_ne_none hm htext (firstPlace_eq_none h)
  · intro h
    rw [Option.eq_none_iff_forall_ne_some]
    exact fun m hm => h m (find?_chooses hm).decomposes

theorem find?_eq_some_iff {p : Pattern} {t : Text} {m : Match} :
    p.find? t = some m ↔ p.Chooses t m := by
  refine ⟨find?_chooses, fun h => ?_⟩
  cases hfind : p.find? t with
  | none => exact absurd h.decomposes (find?_eq_none_iff.mp hfind m)
  | some m' => rw [(find?_chooses hfind).unique h]

end Pattern

end NormalAlgorithm
