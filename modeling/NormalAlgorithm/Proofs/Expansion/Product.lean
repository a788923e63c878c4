import NormalAlgorithm.Proofs.Expansion.Pass
import Mathlib.Algebra.BigOperators.Group.List.Basic
import Mathlib.Data.List.Infix

/-!
# Expansion as a product

Directives are applied one after the other, and each substitutes in what the ones before it made.
When their tokens are different characters and no value holds a token, no pass disturbs another.
Then every rule is replaced by a table: one rule for each way to choose a value for each token of
its key, with all chosen values substituted at once.

Results:
* `mem_selections_iff`, `pairwise_selections`, `length_selections`: the ways to choose, in their
  order.
* `substituteAll_cons`: to substitute one value, and then others that hold no token, is to
  substitute them at once.
* `exists_choices`: the table of a rule, choice by choice, in lexicographic order.
* `expandAll_eq_flatMap_product`, `expandAll_eq_product`: the directives make this table out of each
  rule.
-/

namespace NormalAlgorithm

/-! ## Ways to choose -/

/-- All ways to choose one entry of each list. The choice from the first list varies slowest. -/
def selections {α : Type} : List (List α) → List (List α)
  | [] => [[]]
  | l :: ls => l.flatMap fun a => (selections ls).map (a :: ·)

section

variable {α β : Type}

theorem mem_selections_iff {ls : List (List α)} {chosen : List α} :
    chosen ∈ selections ls ↔ List.Forall₂ (· ∈ ·) chosen ls := by
  induction ls generalizing chosen with
  | nil => simp [selections]
  | cons l ls ih =>
    simp only [selections, List.mem_flatMap, List.mem_map, ih, List.forall₂_cons_right_iff]
    constructor
    · rintro ⟨a, ha, as, has, rfl⟩
      exact ⟨a, as, ha, has, rfl⟩
    · rintro ⟨a, as, ha, has, rfl⟩
      exact ⟨a, ha, as, has, rfl⟩

theorem selections_map (f : α → β) (ls : List (List α)) :
    selections (ls.map (List.map f)) = (selections ls).map (List.map f) := by
  induction ls with
  | nil => rfl
  | cons l ls ih =>
    simp only [selections, List.map_cons, ih, List.flatMap_map, List.map_flatMap, List.map_map]
    rfl

/-- If each list is in order, the choices are in lexicographic order. -/
theorem pairwise_selections {before : α → α → Prop} {ls : List (List α)}
    (h : ∀ l ∈ ls, l.Pairwise before) : (selections ls).Pairwise (List.Lex before) := by
  induction ls with
  | nil => simp [selections]
  | cons l ls ih =>
    obtain ⟨hl, hls⟩ := List.forall_mem_cons.mp h
    rw [selections, List.pairwise_flatMap]
    constructor
    · intro a _
      rw [List.pairwise_map]
      exact (ih hls).imp List.Lex.cons
    · refine hl.imp fun hbefore => ?_
      simp only [List.forall_mem_map]
      intro x _ y _
      exact List.Lex.rel hbefore

theorem length_selections (ls : List (List α)) :
    (selections ls).length = (ls.map List.length).prod := by
  induction ls with
  | nil => rfl
  | cons l ls ih => simp [selections, List.length_flatMap, ih]

end

/-! ## All values at once -/

/-- The text with each of these characters replaced by its value, all at once. -/
def substituteAll (chosen : List (Char × Text)) (t : Text) : Text :=
  t.flatMap fun c => (chosen.lookup c).getD [c]

/-- The rule with each of these characters replaced by its value in key and value. -/
def RawRule.instantiate (chosen : List (Char × Text)) (r : RawRule) : RawRule :=
  { r with key := substituteAll chosen r.key, value := substituteAll chosen r.value }

section

variable {chosen : List (Char × Text)} {c : Char} {v t : Text}

theorem lookup_cons_of_ne {d : Char} (h : d ≠ c) :
    List.lookup d ((c, v) :: chosen) = chosen.lookup d := by
  rw [List.lookup_cons, beq_false_of_ne h]

theorem replaceAll_eq_substituteAll : replaceAll [c] v t = substituteAll [(c, v)] t := by
  rw [replaceAll_singleton]
  refine List.flatMap_congr fun d _ => ?_
  by_cases h : d = c
  · rw [if_pos h, h, List.lookup_cons_self, Option.getD_some]
  · rw [if_neg h, lookup_cons_of_ne h, List.lookup_nil, Option.getD_none]

/-- A text without any of the characters is left as it is. -/
theorem substituteAll_of_not_mem (h : ∀ x ∈ chosen, x.1 ∉ t) : substituteAll chosen t = t := by
  have hnone : ∀ d ∈ t, (chosen.lookup d).getD [d] = [d] := by
    intro d hd
    have hlookup : chosen.lookup d = none := List.lookup_eq_none_iff.mpr fun x hx =>
      bne_iff_ne.mpr fun heq => h x hx (heq ▸ hd)
    rw [hlookup, Option.getD_none]
  rw [substituteAll, List.flatMap_congr hnone, List.flatMap_singleton']

/-- To substitute one value, and then others that stand for characters not in it, is to substitute
    all at once. -/
theorem substituteAll_cons (h : ∀ x ∈ chosen, x.1 ∉ v) (t : Text) :
    substituteAll chosen (substituteAll [(c, v)] t) = substituteAll ((c, v) :: chosen) t := by
  rw [substituteAll, substituteAll, List.flatMap_assoc]
  refine List.flatMap_congr fun d _ => ?_
  by_cases hd : d = c
  · rw [hd, List.lookup_cons_self, List.lookup_cons_self, Option.getD_some]
    exact substituteAll_of_not_mem h
  · rw [lookup_cons_of_ne hd, lookup_cons_of_ne hd, List.lookup_nil, Option.getD_none,
      List.flatMap_singleton]

/-- Which other characters a text holds does not change when a value without them is put in. -/
theorem mem_substituteAll_iff {d : Char} (hne : d ≠ c) (hv : d ∉ v) :
    d ∈ substituteAll [(c, v)] t ↔ d ∈ t := by
  rw [substituteAll, List.mem_flatMap]
  constructor
  · rintro ⟨x, hx, hd⟩
    by_cases hxc : x = c
    · rw [hxc, List.lookup_cons_self] at hd
      exact absurd hd hv
    · rw [lookup_cons_of_ne hxc, List.lookup_nil, Option.getD_none, List.mem_singleton] at hd
      exact hd ▸ hx
  · intro hd
    refine ⟨d, hd, ?_⟩
    rw [lookup_cons_of_ne hne, List.lookup_nil, Option.getD_none]
    exact List.mem_singleton_self d

end

/-! ## The table of a rule -/

/-- The values to choose from for a token: all of them if the key holds the token, and otherwise
    only the first. -/
def options (key : Text) : Char × Pieces → List Text
  | (token, values) => if token ∈ key then values.toList else [values.first]

/-- One rule for each choice, with the chosen values in place of the tokens. -/
def RawRule.product (tokens : List (Char × Pieces)) (r : RawRule) : List RawRule :=
  (selections (tokens.map (options r.key))).map fun chosen =>
    r.instantiate ((tokens.map Prod.fst).zip chosen)

/-- A directive makes one rule for each of its options. -/
theorem RawRule.expand_singleton (c : Char) (values : Pieces) (r : RawRule) :
    r.expand [c] values = (options r.key (c, values)).map fun v => r.instantiate [(c, v)] := by
  by_cases h : c ∈ r.key
  · rw [expand_of_isInfix ((List.singleton_infix_iff c r.key).mpr h), options, if_pos h]
    refine List.map_congr_left fun v _ => ?_
    simp only [substitute, instantiate, replaceAll_eq_substituteAll]
  · rw [expand_of_not_isInfix (mt (List.singleton_infix_iff c r.key).mp h), options, if_neg h]
    have hkey : substituteAll [(c, values.first)] r.key = r.key :=
      substituteAll_of_not_mem (by simpa using h)
    simp only [List.map_singleton, instantiate, hkey, replaceAll_eq_substituteAll]

theorem RawRule.instantiate_cons {chosen : List (Char × Text)} {c : Char} {v : Text}
    (h : ∀ x ∈ chosen, x.1 ∉ v) (r : RawRule) :
    (r.instantiate [(c, v)]).instantiate chosen = r.instantiate ((c, v) :: chosen) := by
  simp only [instantiate, substituteAll_cons h]

theorem mem_of_mem_options {key : Text} {x : Char × Pieces} {v : Text} (h : v ∈ options key x) :
    v ∈ x.2.toList := by
  obtain ⟨token, values⟩ := x
  rw [options] at h
  split at h
  · exact h
  · rw [List.mem_singleton.mp h]
    exact List.mem_cons_self

/-- A pass and the table of the other tokens are the table of all tokens. -/
theorem RawRule.product_cons {c : Char} {values : Pieces} {tokens : List (Char × Pieces)}
    (hne : ∀ x ∈ tokens, x.1 ≠ c) (hvalues : ∀ v ∈ values.toList, ∀ x ∈ tokens, x.1 ∉ v)
    (r : RawRule) :
    (r.expand [c] values).flatMap (product tokens) = r.product ((c, values) :: tokens) := by
  -- No value holds a token, so the options for the other tokens stay the same.
  have hoptions : ∀ v ∈ options r.key (c, values),
      tokens.map (options (r.instantiate [(c, v)]).key) = tokens.map (options r.key) := by
    intro v hv
    refine List.map_congr_left fun x hx => ?_
    have hmem : x.1 ∈ substituteAll [(c, v)] r.key ↔ x.1 ∈ r.key :=
      mem_substituteAll_iff (hne x hx) (hvalues v (mem_of_mem_options hv) x hx)
    simp only [options, instantiate, hmem]
  have hproduct : ∀ v ∈ options r.key (c, values),
      product tokens (r.instantiate [(c, v)]) =
        (selections (tokens.map (options r.key))).map fun chosen =>
          r.instantiate ((c, v) :: (tokens.map Prod.fst).zip chosen) := by
    intro v hv
    rw [product, hoptions v hv]
    refine List.map_congr_left fun chosen _ => instantiate_cons ?_ r
    intro x hx
    obtain ⟨y, hy, heq⟩ := List.mem_map.mp (List.of_mem_zip hx).1
    exact heq ▸ hvalues v (mem_of_mem_options hv) y hy
  rw [expand_singleton, List.flatMap_map, List.flatMap_congr hproduct]
  simp only [product, List.map_cons, selections, List.map_flatMap, List.map_map,
    Function.comp_def, List.zip_cons_cons]

theorem RawRule.length_product (tokens : List (Char × Pieces)) (r : RawRule) :
    (r.product tokens).length =
      ((tokens.filter fun x => x.1 ∈ r.key).map fun x => x.2.toList.length).prod := by
  rw [product, List.length_map, length_selections]
  induction tokens with
  | nil => rfl
  | cons x tokens ih =>
    rw [List.map_cons, List.map_cons, List.prod_cons, ih]
    by_cases h : x.1 ∈ r.key <;> simp [options, h]

/-- The table has one rule for each choice of values, with their positions in the lists, and the
    choices are in lexicographic order of these positions. -/
theorem RawRule.exists_choices (tokens : List (Char × Pieces)) (r : RawRule) :
    ∃ choices : List (List (Text × Nat)),
      r.product tokens = choices.map (fun choice =>
        r.instantiate ((tokens.map Prod.fst).zip (choice.map Prod.fst))) ∧
      (∀ choice, choice ∈ choices ↔
        List.Forall₂ (fun v x => (options r.key x)[v.2]? = some v.1) choice tokens) ∧
      choices.Pairwise (List.Lex fun v w => v.2 < w.2) := by
  refine ⟨selections (tokens.map fun x => (options r.key x).zipIdx), ?_, fun choice => ?_, ?_⟩
  · have hfst : tokens.map (options r.key) =
        (tokens.map fun x => (options r.key x).zipIdx).map (List.map Prod.fst) := by
      simp only [List.map_map, Function.comp_def, List.zipIdx_map_fst]
    rw [product, hfst, selections_map, List.map_map]
    rfl
  · simp only [mem_selections_iff, List.forall₂_map_right_iff, List.mem_zipIdx_iff_getElem?]
  · refine pairwise_selections fun l hl => ?_
    obtain ⟨x, -, rfl⟩ := List.mem_map.mp hl
    rw [← List.pairwise_map (R := (· < ·)), List.zipIdx_map_snd]
    exact List.pairwise_lt_range'

/-! ## All directives -/

/-- Directives whose tokens are different characters, none of which stands in a value, make the
    table of each rule. -/
theorem expandAll_eq_flatMap_product {limit : Nat} {rules out : List RawRule} {ds : List Directive}
    {tokens : List (Char × Pieces)}
    (hread : ds.map (fun d => (decode d.token, d.choices)) = tokens.map fun x => (some [x.1], x.2))
    (hdistinct : (tokens.map Prod.fst).Nodup)
    (hvalues : ∀ x ∈ tokens, ∀ v ∈ x.2.toList, ∀ y ∈ tokens, y.1 ∉ v)
    (h : expandAll limit rules ds = .ok out) : out = rules.flatMap (RawRule.product tokens) := by
  induction ds generalizing rules tokens with
  | nil =>
    obtain rfl : tokens = [] := by simpa using hread.symm
    have hproduct : ∀ r ∈ rules, RawRule.product [] r = [r] := fun r _ => by
      simp [RawRule.product, selections, RawRule.instantiate, substituteAll_of_not_mem]
    rw [expandAll_nil_eq_ok_iff.mp h, List.flatMap_congr hproduct, List.flatMap_singleton']
  | cons d ds ih =>
    obtain _ | ⟨⟨c, values⟩, tokens⟩ := tokens
    · simp at hread
    obtain ⟨hd, hds⟩ := List.cons.inj hread
    obtain ⟨htoken, rfl⟩ := Prod.mk.inj hd
    obtain ⟨hc, hrest⟩ := List.nodup_cons.mp hdistinct
    obtain ⟨hfirst, hlater⟩ := List.forall_mem_cons.mp hvalues
    obtain ⟨between, hpass, hpasses⟩ := expandAll_cons_eq_ok_iff.mp h
    obtain ⟨token, htoken', -, rfl⟩ := Directive.apply_eq_ok_iff.mp hpass
    obtain rfl : token = [c] := Option.some.inj (htoken'.symm.trans htoken)
    have hproduct : ∀ r ∈ rules,
        (r.expand [c] d.choices).flatMap (RawRule.product tokens) =
          r.product ((c, d.choices) :: tokens) := by
      refine fun r _ => RawRule.product_cons ?_ ?_ r
      · exact fun x hx heq => hc (List.mem_map.mpr ⟨x, hx, heq⟩)
      · exact fun v hv x hx => hfirst v hv x (List.mem_cons_of_mem _ hx)
    rw [ih hds hrest (fun x hx v hv y hy => hlater x hx v hv y (List.mem_cons_of_mem _ hy)) hpasses,
      List.flatMap_assoc, List.flatMap_congr hproduct]

/-- **Directives with independent tokens make the full table.** Let the tokens of the directives be
    different characters, none of which stands in a value. If the directives can be applied, every
    rule is replaced, in its place, by one rule of the same kind for each choice of one value for
    each token of its key, with all chosen values substituted at once in key and value; a token
    that the key lacks is replaced by its first value. The choices are in lexicographic order, the
    token of the first directive first and the values of each in the order in which they are
    written, and there are as many as the product of the numbers of values of the tokens of the
    key. -/
theorem expandAll_eq_product {limit : Nat} {rules out : List RawRule} {ds : List Directive}
    {tokens : List (Char × Pieces)}
    (hread : ds.map (fun d => (decode d.token, d.choices)) = tokens.map fun x => (some [x.1], x.2))
    (hdistinct : (tokens.map Prod.fst).Nodup)
    (hvalues : ∀ x ∈ tokens, ∀ v ∈ x.2.toList, ∀ y ∈ tokens, y.1 ∉ v)
    (h : expandAll limit rules ds = .ok out) :
    out = rules.flatMap (RawRule.product tokens) ∧
      ∀ r ∈ rules,
        (r.product tokens).length =
          ((tokens.filter fun x => x.1 ∈ r.key).map fun x => x.2.toList.length).prod ∧
        ∃ choices : List (List (Text × Nat)),
          r.product tokens = choices.map (fun choice =>
            r.instantiate ((tokens.map Prod.fst).zip (choice.map Prod.fst))) ∧
          (∀ choice, choice ∈ choices ↔
            List.Forall₂ (fun v x => (options r.key x)[v.2]? = some v.1) choice tokens) ∧
          choices.Pairwise (List.Lex fun v w => v.2 < w.2) :=
  ⟨expandAll_eq_flatMap_product hread hdistinct hvalues h,
    fun r _ => ⟨r.length_product tokens, r.exists_choices tokens⟩⟩

/-- Two directives and three rules, whose keys hold both tokens, the second one and none. -/
theorem expandAll_eq_product_two :
    ∃ out,
      expandAll 10
          [⟨.plain, "AB".toList, "B-A".toList⟩, ⟨.final, "B".toList, "AB".toList⟩,
            ⟨.plain, "c".toList, "B".toList⟩]
          [⟨"A".toList, "1,2".toList⟩, ⟨"B".toList, "x,y".toList⟩] = .ok out ∧
        out =
          [⟨.plain, "1x".toList, "x-1".toList⟩, ⟨.plain, "1y".toList, "y-1".toList⟩,
            ⟨.plain, "2x".toList, "x-2".toList⟩, ⟨.plain, "2y".toList, "y-2".toList⟩,
            ⟨.final, "x".toList, "1x".toList⟩, ⟨.final, "y".toList, "1y".toList⟩,
            ⟨.plain, "c".toList, "x".toList⟩] ∧
        out =
          [⟨.plain, "AB".toList, "B-A".toList⟩, ⟨.final, "B".toList, "AB".toList⟩,
            ⟨.plain, "c".toList, "B".toList⟩].flatMap
          (RawRule.product
            [('A', ⟨"1".toList, ["2".toList]⟩), ('B', ⟨"x".toList, ["y".toList]⟩)]) := by
  have hexpand : expandAll 10
      [⟨.plain, "AB".toList, "B-A".toList⟩, ⟨.final, "B".toList, "AB".toList⟩,
        ⟨.plain, "c".toList, "B".toList⟩]
      [⟨"A".toList, "1,2".toList⟩, ⟨"B".toList, "x,y".toList⟩] =
      .ok [⟨.plain, "1x".toList, "x-1".toList⟩, ⟨.plain, "1y".toList, "y-1".toList⟩,
        ⟨.plain, "2x".toList, "x-2".toList⟩, ⟨.plain, "2y".toList, "y-2".toList⟩,
        ⟨.final, "x".toList, "1x".toList⟩, ⟨.final, "y".toList, "1y".toList⟩,
        ⟨.plain, "c".toList, "x".toList⟩] := rfl
  exact ⟨_, hexpand, rfl, (expandAll_eq_product rfl (by decide) (by decide) hexpand).1⟩

end NormalAlgorithm
