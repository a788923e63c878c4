import NormalAlgorithm.Proofs.Rule.Application
import NormalAlgorithm.Proofs.Rule.Characters

/-!
# Replacements

The value of a rule, written out. Its percent signs are numbered from one, and each of them uses a
group of the match: the group of the slot with the same number, or that of the last slot if there
are not so many. Groups that no percent sign uses are dropped. When the key has no slots, a percent
sign stands for itself, and is written like any group. What is written for a group depends on the
kind of the rule only, and there is nothing to write just for a group that should be the number of a
character and is not. The first such group that is used is the fault of the rule; one that is not
used does no harm.

Results:
* `replacement_eq`: a replacement writes the groups that are used, from the first to the last.
* `render_eq_ok_iff`, `render_eq_error_iff`: what is written for a group, and what cannot be
  written.
* `apply_writes_used`: what a rule makes of a text, and when it fails.
-/

namespace NormalAlgorithm

/-! ## What is written for a group -/

/-- A rule of this kind writes the second text for a group. -/
inductive RuleKind.Writes : RuleKind → Text → Text → Prop
  | plain (g : Text) : Writes .plain g g
  | final (g : Text) : Writes .final g g
  | codePoint (c : Char) : Writes .codePoint [c] (decimal c.toNat)
  | character (c : Char) : Writes .character (decimal c.toNat) [c]

/-- The group is the numeral of a character. -/
def NumbersCharacter (g : Text) : Prop := ∃ c : Char, g = decimal c.toNat

/-- The group was taken by a slot, or is a percent sign that stands for itself. -/
def RuleKind.Offered (kind : RuleKind) (g : Text) : Prop := kind.slot.Takes g ∨ g = ['%']

theorem canonical_percent : Canonical ['%'] := by
  intro n hn
  cases hn

namespace RuleKind

theorem Offered.canonical {g : Text} (h : character.Offered g) : Canonical g := by
  rcases h with htakes | rfl
  · exact canonical_of_takes htakes
  · exact canonical_percent

theorem Offered.singleton {g : Text} (h : codePoint.Offered g) : ∃ c, g = [c] := by
  rcases h with htakes | rfl
  · exact htakes
  · exact ⟨'%', rfl⟩

theorem render_eq_ok_iff {kind : RuleKind} {g w : Text} (h : kind.Offered g) :
    kind.render g = .ok w ↔ kind.Writes g w := by
  cases kind with
  | plain =>
    constructor
    · rintro ⟨⟩
      exact .plain g
    · rintro ⟨⟩
      rfl
  | final =>
    constructor
    · rintro ⟨⟩
      exact .final g
    · rintro ⟨⟩
      rfl
  | codePoint =>
    constructor
    · obtain ⟨c, rfl⟩ := h.singleton
      rintro ⟨⟩
      exact .codePoint c
    · rintro ⟨⟩
      rfl
  | character =>
    rw [render_character_eq_ok_iff h.canonical]
    constructor
    · rintro ⟨c, rfl, rfl⟩
      exact .character c
    · rintro ⟨⟩
      exact ⟨_, rfl, rfl⟩

theorem render_eq_error_iff {kind : RuleKind} {g : Text} {f : Fault} (h : kind.Offered g) :
    kind.render g = .error f ↔
      kind = .character ∧ ¬ NumbersCharacter g ∧ f = .notACharacter g := by
  cases kind with
  | plain | final | codePoint => simp [render]
  | character =>
    rw [render_character_eq_error_iff h.canonical]
    simp [NumbersCharacter]

theorem exists_render_character_iff {g : Text} (h : character.Offered g) :
    (∃ w, character.render g = .ok w) ↔ NumbersCharacter g := by
  simp [render_character_eq_ok_iff h.canonical, NumbersCharacter]

end RuleKind

/-! ## The groups that are used -/

/-- The group that the percent sign with this number uses. Numbers are counted from one. -/
def groupFor (groups : List Text) (i : Nat) : Text :=
  if groups = [] then ['%'] else groups.getD (min groups.length i - 1) []

theorem groupAt_eq (groups : List Text) (i : Nat) :
    Rule.groupAt groups i = groupFor groups (i + 1) := by
  cases groups with
  | nil => rfl
  | cons g gs =>
    have hindex : min (g :: gs).length (i + 1) - 1 = min i ((g :: gs).length - 1) := by
      rw [List.length_cons]
      omega
    have hlt : min i ((g :: gs).length - 1) < (g :: gs).length := by
      rw [List.length_cons]
      omega
    rw [Rule.groupAt, groupFor, if_neg (List.cons_ne_nil g gs), hindex, List.getD_eq_getElem?_getD,
      List.getElem?_eq_getElem hlt, Option.getD_some, Option.getD_some]

theorem groupFor_eq_or_mem (groups : List Text) {i : Nat} :
    groups = [] ∧ groupFor groups i = ['%'] ∨ groupFor groups i ∈ groups := by
  unfold groupFor
  split
  · rename_i hnone
    exact .inl ⟨hnone, rfl⟩
  · rename_i hsome
    have hpositive := List.length_pos_iff.mpr hsome
    have hlt : min groups.length i - 1 < groups.length := by omega
    rw [List.getD_eq_getElem?_getD, List.getElem?_eq_getElem hlt, Option.getD_some]
    exact .inr (List.getElem_mem hlt)

namespace Rule

/-- The groups that the percent signs of the value use, from the first to the last. -/
def used (r : Rule) (groups : List Text) : List Text :=
  (List.range' 1 r.value.cuts).map (groupFor groups)

theorem offered_of_mem_used {r : Rule} {groups : List Text}
    (h : ∀ g ∈ groups, r.kind.slot.Takes g) {g : Text} (hg : g ∈ r.used groups) :
    r.kind.Offered g := by
  obtain ⟨i, -, rfl⟩ := List.mem_map.mp hg
  rcases groupFor_eq_or_mem groups with ⟨-, hpercent⟩ | hmem
  · exact .inr hpercent
  · exact .inl (h _ hmem)

/-- To write each group with the piece behind it is to write all groups and put the pieces
    between. -/
theorem mapM_pieces (kind : RuleKind) (groups rest : List Text) (n : Nat) :
    (do
      let parts ← (rest.zipIdx n).mapM fun (piece, i) => do
        let group ← kind.render (groupAt groups i)
        return group ++ piece
      return parts.flatten) =
      (do
        let written ← ((List.range' (n + 1) rest.length).map (groupFor groups)).mapM kind.render
        return weave written rest) := by
  induction rest generalizing n with
  | nil => rfl
  | cons piece rest ih =>
    simp only [List.zipIdx_cons, List.mapM_cons, List.length_cons, List.range'_succ, List.map_cons,
      groupAt_eq, bind_assoc, pure_bind, List.flatten_cons, weave]
    congr 1
    funext w
    have hrest := congrArg (fun x => do let t ← x; return w ++ piece ++ t) (ih (n + 1))
    simpa only [groupAt_eq, bind_assoc, pure_bind] using hrest

/-- A replacement writes the groups that are used, from the first to the last. -/
theorem replacement_eq (r : Rule) (groups : List Text) :
    r.replacement groups = (do
      let written ← (r.used groups).mapM r.kind.render
      return r.value.first ++ weave written r.value.rest) := by
  have hpieces := congrArg (fun x => do let t ← x; return r.value.first ++ t)
    (mapM_pieces r.kind groups r.value.rest 0)
  simp only [bind_assoc, pure_bind] at hpieces
  exact hpieces

theorem replacement_eq_ok_iff {r : Rule} {groups : List Text} {new : Text}
    (h : ∀ g ∈ groups, r.kind.slot.Takes g) :
    r.replacement groups = .ok new ↔ ∃ written, List.Forall₂ r.kind.Writes (r.used groups) written ∧
      new = r.value.first ++ weave written r.value.rest := by
  have hoffered : ∀ g ∈ r.used groups, r.kind.Offered g := fun g => offered_of_mem_used h
  have hwrites : ∀ written, (r.used groups).mapM r.kind.render = .ok written ↔
      List.Forall₂ r.kind.Writes (r.used groups) written := by
    intro written
    rw [mapM_eq_ok_iff_forall₂]
    constructor
    · intro hall
      exact ((List.forall₂_and_left _ _).mpr ⟨hoffered, hall⟩).imp fun g w hgw =>
        (RuleKind.render_eq_ok_iff hgw.1).mp hgw.2
    · intro hall
      exact ((List.forall₂_and_left _ _).mpr ⟨hoffered, hall⟩).imp fun g w hgw =>
        (RuleKind.render_eq_ok_iff hgw.1).mpr hgw.2
  rw [replacement_eq, bind_eq_ok_iff]
  simp only [hwrites, pure, Except.pure, Except.ok.injEq, eq_comm]

theorem replacement_eq_error_iff {r : Rule} {groups : List Text} {f : Fault}
    (h : ∀ g ∈ groups, r.kind.slot.Takes g) :
    r.replacement groups = .error f ↔ r.kind = .character ∧
      ∃ before g after, r.used groups = before ++ g :: after ∧
        (∀ g' ∈ before, NumbersCharacter g') ∧ ¬ NumbersCharacter g ∧ f = .notACharacter g := by
  have hoffered : ∀ g ∈ r.used groups, r.kind.Offered g := fun g => offered_of_mem_used h
  have hmapM : r.replacement groups = .error f ↔ (r.used groups).mapM r.kind.render = .error f := by
    rw [replacement_eq, bind_eq_error_iff]
    simp [pure, Except.pure]
  rw [hmapM, mapM_eq_error_iff]
  constructor
  · rintro ⟨before, g, after, hused, hbefore, herror⟩
    rw [hused] at hoffered
    obtain ⟨hkind, hg, hf⟩ := (RuleKind.render_eq_error_iff (hoffered g (by simp))).mp herror
    refine ⟨hkind, before, g, after, hused, fun g' hg' => ?_, hg, hf⟩
    have hoffered' := hoffered g' (List.mem_append_left _ hg')
    have hwritten := hbefore g' hg'
    rw [hkind] at hoffered' hwritten
    exact (RuleKind.exists_render_character_iff hoffered').mp hwritten
  · rintro ⟨hkind, before, g, after, hused, hbefore, hg, hf⟩
    rw [hused] at hoffered
    refine ⟨before, g, after, hused, fun g' hg' => ?_, ?_⟩
    · have hoffered' := hoffered g' (List.mem_append_left _ hg')
      rw [hkind] at hoffered' ⊢
      exact (RuleKind.exists_render_character_iff hoffered').mpr (hbefore g' hg')
    · exact (RuleKind.render_eq_error_iff (hoffered g (by simp))).mpr ⟨hkind, hg, hf⟩

end Rule

/-! ## Applying a rule -/

/-- **What a rule makes of a text.** Where its key has a match, with one group for each slot, a rule
    does apply. It leaves the text before and after the chosen match as it is. In place of the match
    it puts the first piece of its value, and then for each percent sign what is written for the
    group that it uses, with the next piece behind it. It fails only if its groups are to be written
    as characters and one that is used is not the numeral of any; the fault names the first of
    these. -/
theorem apply_writes_used {r : Rule} {t : Text} {m : Match} (h : r.pattern.Chooses t m) :
    m.groups.length = r.key.cuts ∧ (∃ result, r.apply t = some result) ∧
      (∀ out, r.apply t = some (.ok out) ↔
        ∃ written, List.Forall₂ r.kind.Writes (r.used m.groups) written ∧
          out = m.before ++ (r.value.first ++ weave written r.value.rest) ++ m.after) ∧
      ∀ f, r.apply t = some (.error f) ↔ r.kind = .character ∧
        ∃ before g after, r.used m.groups = before ++ g :: after ∧
          (∀ g' ∈ before, NumbersCharacter g') ∧ ¬ NumbersCharacter g ∧ f = .notACharacter g := by
  have happly : r.apply t = some ((r.replacement m.groups).map (Rule.splice m)) :=
    Rule.apply_eq_some_iff.mpr ⟨m, h, rfl⟩
  have htaken : ∀ g ∈ m.groups, r.kind.slot.Takes g := h.decomposes.taken
  refine ⟨h.decomposes.groups_length, ⟨_, happly⟩, fun out => ?_, fun f => ?_⟩
  · rw [happly, Option.some.injEq]
    constructor
    · intro hout
      cases hnew : r.replacement m.groups with
      | error f =>
        rw [hnew] at hout
        cases hout
      | ok new =>
        rw [hnew] at hout
        cases hout
        obtain ⟨written, hwritten, rfl⟩ := (Rule.replacement_eq_ok_iff htaken).mp hnew
        exact ⟨written, hwritten, rfl⟩
    · rintro ⟨written, hwritten, rfl⟩
      rw [(Rule.replacement_eq_ok_iff htaken).mpr ⟨written, hwritten, rfl⟩]
      rfl
  · rw [← Rule.replacement_eq_error_iff htaken, happly, Option.some.injEq]
    cases r.replacement m.groups <;> simp [Except.map]

/-- A group that is not the number of a character, in a rule whose value does not use it and in one
    whose value uses it twice. -/
theorem apply_writes_used_surrogate :
    Pattern.Chooses ⟨.digits, ⟨[], ["-".toList, []]⟩⟩ "x65-55296y".toList
        ⟨"x".toList, ["65".toList, "55296".toList], "y".toList⟩ ∧
      Rule.apply ⟨.character, ⟨[], ["-".toList, []]⟩, ⟨"<".toList, [">".toList]⟩⟩
        "x65-55296y".toList = some (.ok "x<A>y".toList) ∧
      Rule.apply ⟨.character, ⟨[], ["-".toList, []]⟩, ⟨[], [[], [], []]⟩⟩
        "x65-55296y".toList = some (.error (.notACharacter "55296".toList)) := by
  have hchosen : Pattern.Chooses ⟨.digits, ⟨[], ["-".toList, []]⟩⟩ "x65-55296y".toList
      ⟨"x".toList, ["65".toList, "55296".toList], "y".toList⟩ :=
    Pattern.find?_eq_some_iff.mp (by decide +kernel)
  obtain ⟨-, -, hwritten, -⟩ := apply_writes_used
    (r := ⟨.character, ⟨[], ["-".toList, []]⟩, ⟨"<".toList, [">".toList]⟩⟩) hchosen
  obtain ⟨-, -, -, hrefused⟩ := apply_writes_used
    (r := ⟨.character, ⟨[], ["-".toList, []]⟩, ⟨[], [[], [], []]⟩⟩) hchosen
  refine ⟨hchosen, (hwritten _).mpr ⟨["A".toList], .cons (.character 'A') .nil, rfl⟩, ?_⟩
  refine (hrefused _).mpr ⟨rfl, ["65".toList], "55296".toList, ["55296".toList], rfl, ?_, ?_, rfl⟩
  · exact List.forall_mem_singleton.mpr ⟨'A', rfl⟩
  · rintro ⟨c, hc⟩
    have htaken : Slot.digits.Takes "55296".toList := Slot.accepts_iff.mp rfl
    have hread := (readCharacter_eq_some_iff (canonical_of_takes htaken)).mpr hc
    cases hread

end NormalAlgorithm
