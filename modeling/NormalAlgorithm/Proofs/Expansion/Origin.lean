import NormalAlgorithm.Proofs.Escape.Substitution
import NormalAlgorithm.Proofs.Expansion.Pass
import Mathlib.Data.List.FinRange
import Mathlib.Data.List.Pairwise
import Mathlib.Data.Prod.Lex
import Mathlib.Order.Fin.Basic

/-!
# The origin of expanded rules

A directive goes over the rules from first to last and puts rules of the same kind in the place of
each, at least one. A later directive does the same to these rules. So however many directives
there are and whatever their tokens and values are, every rule that they make goes back to one of
the rules they started from, and the rules that go back to it stand side by side where it stood.

Results:
* `exists_places`: in a list that is made piece by piece, each entry has a place in one of the
  pieces, and the entries are in the order of their places.
* `expandAll_eq_flatMap_descendants`: what directives make of a rule depends on this rule only.
* `descendants_ne_nil`, `kind_of_mem_descendants`, `descendants_of_lacks`: what directives make of
  a rule.
* `expandAll_origin`: the origin of expanded rules.
-/

namespace NormalAlgorithm

/-! ## Places -/

section

variable {α β : Type} {f : α → List β} {xs : List α}

/-- The entries of a list that is made piece by piece, each behind its place: the number of its
    piece, and its number in the piece. -/
def withPlaces (f : α → List β) (xs : List α) : List ((Fin xs.length × Nat) × β) :=
  (List.finRange xs.length).flatMap fun j =>
    (f (xs.get j)).zipIdx.map fun y => ((j, y.2), y.1)

theorem map_snd_withPlaces : (withPlaces f xs).map Prod.snd = xs.flatMap f := by
  have hpieces : (List.finRange xs.length).flatMap (fun j => f (xs.get j)) = xs.flatMap f := by
    conv_rhs => rw [← List.map_get_finRange xs, List.flatMap_map]
  simp only [withPlaces, List.map_flatMap, List.map_map, Function.comp_def, List.zipIdx_map_fst,
    hpieces]

theorem pairwise_withPlaces : (withPlaces f xs).Pairwise fun x y => toLex x.1 < toLex y.1 := by
  rw [withPlaces, List.pairwise_flatMap]
  constructor
  · intro j _
    have hnumbers : ((f (xs.get j)).zipIdx.map Prod.snd).Pairwise (· < ·) := by
      rw [List.zipIdx_map_snd]
      exact List.pairwise_lt_range'
    rw [List.pairwise_map] at hnumbers ⊢
    refine hnumbers.imp ?_
    intro x y hlt
    exact Prod.Lex.toLex_lt_toLex.mpr (.inr ⟨rfl, hlt⟩)
  · refine (List.pairwise_lt_finRange xs.length).imp fun {j j'} hlt => ?_
    simp only [List.forall_mem_map]
    exact fun _ _ _ _ => Prod.Lex.toLex_lt_toLex.mpr (.inl hlt)

theorem mem_withPlaces_iff {j : Fin xs.length} {k : Nat} {y : β} :
    ((j, k), y) ∈ withPlaces f xs ↔ (f (xs.get j))[k]? = some y := by
  simp only [withPlaces, List.mem_flatMap, List.mem_finRange, true_and, List.mem_map,
    Prod.mk.injEq, List.mem_zipIdx_iff_getElem?]
  constructor
  · rintro ⟨_, y, hy, ⟨rfl, rfl⟩, rfl⟩
    exact hy
  · exact fun hy => ⟨j, (y, k), hy, ⟨rfl, rfl⟩, rfl⟩

/-- In a list that is made piece by piece, the places increase from entry to entry, and every place
    is taken. -/
theorem exists_places (f : α → List β) (xs : List α) :
    ∃ (origin : Fin (xs.flatMap f).length → Fin xs.length)
      (number : Fin (xs.flatMap f).length → Nat),
      StrictMono (fun i => toLex (origin i, number i)) ∧
      ∀ j k y, (f (xs.get j))[k]? = some y ↔
        ∃ i, origin i = j ∧ number i = k ∧ (xs.flatMap f).get i = y := by
  rw [← map_snd_withPlaces]
  have hlength : ((withPlaces f xs).map Prod.snd).length = (withPlaces f xs).length :=
    List.length_map _
  refine ⟨fun i => ((withPlaces f xs).get (i.cast hlength)).1.1,
    fun i => ((withPlaces f xs).get (i.cast hlength)).1.2, fun i i' hlt => ?_, fun j k y => ?_⟩
  · exact List.pairwise_iff_get.mp pairwise_withPlaces (i.cast hlength) (i'.cast hlength) hlt
  · rw [← mem_withPlaces_iff, List.mem_iff_get]
    constructor
    · rintro ⟨i, hi⟩
      exact ⟨i.cast hlength.symm, congrArg (·.1.1) hi, congrArg (·.1.2) hi,
        by simpa using congrArg Prod.snd hi⟩
    · rintro ⟨i, rfl, rfl, rfl⟩
      exact ⟨i.cast hlength, Prod.ext rfl (by simp)⟩

end

/-! ## One rule -/

/-- The rules that a directive makes out of one rule, if its token can be decoded. -/
def Directive.clones (d : Directive) (r : RawRule) : List RawRule :=
  match decode d.token with
  | some token => r.expand token d.choices
  | none => []

namespace RawRule

/-- The rules that directives make out of one rule, one after the other. -/
def descendants : List Directive → RawRule → List RawRule
  | [], r => [r]
  | d :: ds, r => (d.clones r).flatMap (descendants ds)

/-- The token stands neither in the key of the rule nor in its value. -/
def Lacks (token : Text) (r : RawRule) : Prop := ¬ token <:+: r.key ∧ ¬ token <:+: r.value

section

variable {token : Text} {values : Pieces} {r x : RawRule} {ds : List Directive}

theorem expand_ne_nil : r.expand token values ≠ [] := by
  by_cases h : token <:+: r.key
  · simp [expand_of_isInfix h, Pieces.toList]
  · simp [expand_of_not_isInfix h]

theorem kind_of_mem_expand (h : x ∈ r.expand token values) : x.kind = r.kind := by
  by_cases hkey : token <:+: r.key
  · rw [expand_of_isInfix hkey, List.mem_map] at h
    obtain ⟨value, -, rfl⟩ := h
    rfl
  · rw [expand_of_not_isInfix hkey, List.mem_singleton] at h
    rw [h]

theorem expand_of_lacks (h : r.Lacks token) : r.expand token values = [r] := by
  rw [expand_of_not_isInfix h.1, replaceAll_of_not_isInfix _ h.2]

/-! ## All directives -/

theorem descendants_ne_nil (htokens : ∀ d ∈ ds, ∃ token, decode d.token = some token) :
    r.descendants ds ≠ [] := by
  induction ds generalizing r with
  | nil => simp [descendants]
  | cons d ds ih =>
    obtain ⟨⟨token, htoken⟩, hrest⟩ := List.forall_mem_cons.mp htokens
    rw [descendants, Directive.clones, htoken]
    intro hnil
    have hclones : r.expand token d.choices ≠ [] := expand_ne_nil
    obtain ⟨x, hx⟩ := List.exists_mem_of_ne_nil _ hclones
    exact ih hrest (List.flatMap_eq_nil_iff.mp hnil x hx)

theorem kind_of_mem_descendants (h : x ∈ r.descendants ds) : x.kind = r.kind := by
  induction ds generalizing r with
  | nil => rw [List.mem_singleton.mp h]
  | cons d ds ih =>
    obtain ⟨clone, hclone, hx⟩ := List.mem_flatMap.mp h
    rw [Directive.clones] at hclone
    split at hclone
    · rw [ih hx, kind_of_mem_expand hclone]
    · cases hclone

/-- A rule without any of the tokens is left alone by every pass. -/
theorem descendants_of_lacks (h : ∀ d ∈ ds, ∃ token, decode d.token = some token ∧ r.Lacks token) :
    r.descendants ds = [r] := by
  induction ds with
  | nil => rfl
  | cons d ds ih =>
    obtain ⟨⟨token, htoken, hlacks⟩, hrest⟩ := List.forall_mem_cons.mp h
    rw [descendants, Directive.clones, htoken]
    simp only [expand_of_lacks hlacks, List.flatMap_singleton, ih hrest]

end

end RawRule

section

variable {limit : Nat} {rules out : List RawRule} {ds : List Directive}

theorem Directive.apply_eq_flatMap_clones {d : Directive} (h : d.apply limit rules = .ok out) :
    (∃ token, decode d.token = some token) ∧ out = rules.flatMap d.clones := by
  obtain ⟨token, htoken, rfl⟩ := Directive.apply_eq_ok h
  refine ⟨⟨token, htoken⟩, List.flatMap_congr fun r _ => ?_⟩
  rw [clones, htoken]

theorem expandAll_eq_flatMap_descendants (h : expandAll limit rules ds = .ok out) :
    (∀ d ∈ ds, ∃ token, decode d.token = some token) ∧
      out = rules.flatMap (RawRule.descendants ds) := by
  induction ds generalizing rules with
  | nil =>
    rw [expandAll_nil_eq_ok_iff.mp h]
    exact ⟨by simp, (List.flatMap_singleton' rules).symm⟩
  | cons d ds ih =>
    obtain ⟨between, hpass, hpasses⟩ := expandAll_cons_eq_ok_iff.mp h
    obtain ⟨htoken, rfl⟩ := Directive.apply_eq_flatMap_clones hpass
    obtain ⟨hrest, rfl⟩ := ih hpasses
    exact ⟨List.forall_mem_cons.mpr ⟨htoken, hrest⟩, List.flatMap_assoc⟩

/-- **Expansion loses, reorders and relabels nothing.** If directives can be applied to rules, each
    rule that they make has an origin among the rules they started from. The rules that are made
    stand in the order of their origins, so that those of one origin stand side by side, every rule
    is the origin of at least one, and a rule is of the same kind as its origin. They are what the
    directives, one after the other, make of their origin. A rule that holds none of the tokens, in
    its key or in its value, is left alone by every pass, and is the origin of itself only. -/
theorem expandAll_origin (h : expandAll limit rules ds = .ok out) :
    ∃ origin : Fin out.length → Fin rules.length,
      Monotone origin ∧ Function.Surjective origin ∧
      (∀ i j k, i ≤ j → j ≤ k → origin i = origin k → origin j = origin i) ∧
      (∀ i, (out.get i).kind = (rules.get (origin i)).kind ∧
        out.get i ∈ (rules.get (origin i)).descendants ds) ∧
      ∀ j, (∀ d ∈ ds, ∀ token, decode d.token = some token → (rules.get j).Lacks token) →
        ∃ i, out.get i = rules.get j ∧ ∀ i', origin i' = j ↔ i' = i := by
  obtain ⟨htokens, rfl⟩ := expandAll_eq_flatMap_descendants h
  obtain ⟨origin, number, hplace, htaken⟩ := exists_places (RawRule.descendants ds) rules
  have hentry : ∀ i, ((rules.get (origin i)).descendants ds)[number i]? =
      some ((rules.flatMap (RawRule.descendants ds)).get i) :=
    fun i => (htaken _ _ _).mpr ⟨i, rfl, rfl, rfl⟩
  have hmember := fun i => List.mem_of_getElem? (hentry i)
  have hmonotone : Monotone origin := Prod.Lex.monotone_fst_ofLex.comp hplace.monotone
  refine ⟨origin, hmonotone, fun j => ?_, fun i j k hij hjk hik => ?_,
    fun i => ⟨RawRule.kind_of_mem_descendants (hmember i), hmember i⟩, fun j hlacks => ?_⟩
  · have hdescendants : (rules.get j).descendants ds ≠ [] := RawRule.descendants_ne_nil htokens
    obtain ⟨x, hx⟩ := List.exists_mem_of_ne_nil _ hdescendants
    obtain ⟨k, hk⟩ := List.mem_iff_getElem?.mp hx
    obtain ⟨i, hi, -⟩ := (htaken j k x).mp hk
    exact ⟨i, hi⟩
  · exact le_antisymm ((hmonotone hjk).trans hik.ge) (hmonotone hij)
  · have hsingle : (rules.get j).descendants ds = [rules.get j] := by
      refine RawRule.descendants_of_lacks fun d hd => ?_
      obtain ⟨token, htoken⟩ := htokens d hd
      exact ⟨token, htoken, hlacks d hd token htoken⟩
    obtain ⟨i, hi, hnumber, hget⟩ := (htaken j 0 (rules.get j)).mp (by rw [hsingle]; rfl)
    refine ⟨i, hget, fun i' => ⟨fun hi' => hplace.injective ?_, fun heq => heq ▸ hi⟩⟩
    -- The only place for a rule of this origin is the first.
    have hfirst : number i' < 1 := by
      have hlt := (List.getElem?_eq_some_iff.mp (hentry i')).1
      rwa [hi', hsingle] at hlt
    rw [hi, hi', hnumber, Nat.lt_one_iff.mp hfirst]

end

/-- The second token is put in by the values of the first, also where there is one value only, and
    a rule without the tokens stands between the rules that are made. -/
theorem expandAll_origin_between :
    ∃ out,
      expandAll 10
          [⟨.final, "X".toList, []⟩, ⟨.plain, "c".toList, "d".toList⟩,
            ⟨.codePoint, "a".toList, "X".toList⟩]
          [⟨"X".toList, "Y1,Y2".toList⟩, ⟨"Y".toList, "p,".toList⟩] = .ok out ∧
        out =
          [⟨.final, "p1".toList, []⟩, ⟨.final, "1".toList, []⟩, ⟨.final, "p2".toList, []⟩,
            ⟨.final, "2".toList, []⟩, ⟨.plain, "c".toList, "d".toList⟩,
            ⟨.codePoint, "a".toList, "p1".toList⟩] ∧
        ∃ origin : Fin out.length → Fin 3, Monotone origin ∧ Function.Surjective origin ∧
          ∃ i, out.get i = ⟨.plain, "c".toList, "d".toList⟩ ∧ ∀ i', origin i' = 1 ↔ i' = i := by
  have hexpand : expandAll 10
      [⟨.final, "X".toList, []⟩, ⟨.plain, "c".toList, "d".toList⟩,
        ⟨.codePoint, "a".toList, "X".toList⟩]
      [⟨"X".toList, "Y1,Y2".toList⟩, ⟨"Y".toList, "p,".toList⟩] =
      .ok [⟨.final, "p1".toList, []⟩, ⟨.final, "1".toList, []⟩, ⟨.final, "p2".toList, []⟩,
        ⟨.final, "2".toList, []⟩, ⟨.plain, "c".toList, "d".toList⟩,
        ⟨.codePoint, "a".toList, "p1".toList⟩] := rfl
  obtain ⟨origin, hmonotone, hsurjective, -, -, hlacks⟩ := expandAll_origin hexpand
  refine ⟨_, hexpand, rfl, origin, hmonotone, hsurjective, hlacks 1 fun d hd token htoken => ?_⟩
  simp only [List.mem_cons, List.not_mem_nil, or_false] at hd
  rcases hd with rfl | rfl
  · obtain rfl : "X".toList = token := Option.some.inj htoken
    exact ⟨by decide, by decide⟩
  · obtain rfl : "Y".toList = token := Option.some.inj htoken
    exact ⟨by decide, by decide⟩

end NormalAlgorithm
