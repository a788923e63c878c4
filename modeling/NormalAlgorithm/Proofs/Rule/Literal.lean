import NormalAlgorithm.Proofs.Escape.Decoded
import NormalAlgorithm.Proofs.Rule.Replacement

/-!
# Percent signs that stand for themselves

When the key of a rule has no slots, the percent signs of its value stand for themselves. The value
is cut at them all the same, its pieces are decoded, and percent signs are written between them
again. What comes out is what the whole value stands for: no cut goes through an escape, so that
decoding can be done piece by piece. A percent sign that is protected by a backslash is not cut at,
but it stands for the same.

Results:
* `decodeOrFault_split`: a raw text can be decoded piece by piece, whatever it is cut at.
* `exists_decode_split_iff`, `decode_split_iff`: when it stands for something, and for what.
* `Rule.apply_congr_of_noSlots`: without slots it does not matter where the value of a rule is cut.
* `RawRule.compile_map_apply`: such a value need not be cut at all, but only decoded.
* `apply_inserts_value`: a rule without slots inserts what its value stands for.
-/

namespace NormalAlgorithm

/-! ## Decoding piece by piece -/

theorem Pieces.joinWith_cons (between first : Text) (p : Pieces) :
    (Pieces.mk first p.toList).joinWith between = first ++ (between ++ p.joinWith between) := by
  simp [joinWith, toList]

theorem Pieces.mapM_cons {ε : Type} (f : Text → Except ε Text) (first : Text) (p : Pieces) :
    (Pieces.mk first p.toList).mapM f = do
      let u ← f first
      let q ← p.mapM f
      return ⟨u, q.toList⟩ := by
  simp only [mapM, toList, List.mapM_cons, bind_assoc, pure_bind]

/-- A raw text can be decoded piece by piece, with the separators put back between the pieces. -/
theorem decodeOrFault_split {c : Char} (hc : c ≠ '\\') (t : Text) :
    ((split (· = c) t).mapM decodeOrFault).map (Pieces.joinWith [c]) = decodeOrFault t := by
  obtain ⟨before, last, hcut⟩ := exists_cutInto (· = c) t
  induction hcut with
  | @last t uncut =>
    rw [split_bare uncut, Pieces.mapM]
    cases decodeOrFault t <;> simp [bind, Except.bind, pure, Except.pure, Except.map,
      Pieces.joinWith]
  | @cut s t last d before closed separates plain _ ih =>
    obtain rfl := of_decide_eq_true separates
    obtain ⟨u, hu⟩ := exists_decode_iff.mpr closed.complete
    have hbehind : decodeOrFault (d :: t) = (decodeOrFault t).map ([d] ++ ·) :=
      decodeOrFault_append (decode_singleton plain) t
    rw [split_of_sealed closed separates plain, Pieces.mapM_cons, decodeOrFault_eq_ok_iff.mpr hu,
      decodeOrFault_append hu, hbehind, ← ih]
    cases (split (· = d) t).mapM decodeOrFault with
    | error f => rfl
    | ok p => exact congrArg Except.ok (Pieces.joinWith_cons [d] u p)

section

variable {c : Char} {t u : Text}

/-- A raw text stands for something exactly if each of its pieces does. -/
theorem exists_decode_split_iff {isSeparator : Char → Bool} :
    (∃ u, decode t = some u) ↔ ∀ raw ∈ (split isSeparator t).toList, ∃ u, decode raw = some u := by
  obtain ⟨before, last, hcut⟩ := exists_cutInto isSeparator t
  rw [hcut.toList_split, List.forall_mem_append, List.forall_mem_singleton]
  simp only [exists_decode_iff]
  rw [hcut.dangling_iff]
  exact ⟨fun h => ⟨fun raw hraw => (hcut.sealed_of_mem raw hraw).complete, h⟩, fun h => h.2⟩

/-- It stands for what its pieces stand for, with the separators between them. -/
theorem decode_split_iff (hc : c ≠ '\\') :
    decode t = some u ↔ ∃ p : Pieces,
      List.Forall₂ (fun raw w => decode raw = some w) (split (· = c) t).toList p.toList ∧
        u = p.joinWith [c] := by
  simp only [← decodeOrFault_eq_ok_iff, ← Pieces.mapM_eq_ok_iff]
  rw [← decodeOrFault_split hc]
  cases (split (· = c) t).mapM decodeOrFault <;> simp [Except.map, eq_comm]

end

/-! ## Rules without slots -/

/-- The groups for percent signs that stand for themselves. -/
theorem weave_percents (rest : List Text) (n : Nat) :
    weave ((List.range' n rest.length).map (groupFor [])) rest = rest.flatMap (['%'] ++ ·) := by
  induction rest generalizing n with
  | nil => rfl
  | cons piece rest ih =>
    rw [List.length_cons, List.range'_succ, List.map_cons, weave, ih, List.flatMap_cons]
    rfl

/-- A kind of rule that copies what its slots take, and whatever else it writes for a group. -/
def RuleKind.Copies (kind : RuleKind) : Prop := kind = .plain ∨ kind = .final

theorem RuleKind.Copies.render {kind : RuleKind} (h : kind.Copies) (g : Text) :
    kind.render g = .ok g := by
  rcases h with rfl | rfl <;> rfl

namespace Rule

variable {r : Rule}

theorem replacement_of_no_groups (hkind : r.kind.Copies) :
    r.replacement [] = .ok (r.value.joinWith ['%']) := by
  have hwritten : ((r.used []).map id).mapM r.kind.render = .ok (r.used []) :=
    mapM_map_eq_ok hkind.render (r.used [])
  rw [List.map_id] at hwritten
  rw [replacement_eq, hwritten, used, Pieces.cuts]
  exact congrArg (fun t => Except.ok (r.value.first ++ t)) (weave_percents r.value.rest 1)

/-- Without slots, it does not matter where the value is cut. -/
theorem apply_congr_of_noSlots (hkind : r.kind.Copies) (hslots : r.key.rest = []) {value : Pieces}
    (h : value.joinWith ['%'] = r.value.joinWith ['%']) : apply { r with value } = r.apply := by
  have hreplacement : replacement { r with value } [] = r.replacement [] := by
    rw [replacement_of_no_groups hkind, ← h]
    exact replacement_of_no_groups (r := { r with value }) hkind
  have hpattern : pattern { r with value } = r.pattern := rfl
  funext t
  rw [apply, apply, hpattern]
  cases hfind : r.pattern.find? t with
  | none => rfl
  | some m =>
    have hchosen : r.pattern.Chooses t m := Pattern.find?_eq_some_iff.mp hfind
    have hgroups : m.groups = [] :=
      ((Pattern.decomposes_iff_of_noSlots hslots).mp hchosen.decomposes).1
    rw [Option.map_some, Option.map_some, hgroups, hreplacement]

/-- A rule without slots rewrites an occurrence of its key, and none stands before it. -/
theorem apply_of_noSlots (hkind : r.kind.Copies) (hslots : r.key.rest = []) {t : Text}
    (h : r.key.first <:+: t) : ∃ before after, t = before ++ r.key.first ++ after ∧
      (∀ before' after', t = before' ++ r.key.first ++ after' → before.length ≤ before'.length) ∧
      r.apply t = some (.ok (before ++ r.value.joinWith ['%'] ++ after)) := by
  have hmatches : ∀ {m}, r.pattern.Decomposes t m ↔
      m.groups = [] ∧ t = m.before ++ r.key.first ++ m.after :=
    Pattern.decomposes_iff_of_noSlots hslots
  obtain ⟨u, v, huv⟩ := h
  have happlies : r.apply t ≠ none := by
    rw [ne_eq, apply_eq_none_iff_decomposes]
    exact fun hnone => hnone ⟨u, [], v⟩ (hmatches.mpr ⟨rfl, huv.symm⟩)
  obtain ⟨result, hresult⟩ := Option.ne_none_iff_exists'.mp happlies
  obtain ⟨m, hchosen, rfl⟩ := apply_eq_some_iff.mp hresult
  obtain ⟨hgroups, htext⟩ := hmatches.mp hchosen.decomposes
  refine ⟨m.before, m.after, htext, fun before' after' ht => ?_, ?_⟩
  · exact hchosen.leftmost ⟨before', [], after'⟩ (hmatches.mpr ⟨rfl, ht⟩)
  · rw [hresult, hgroups, replacement_of_no_groups hkind]
    rfl

end Rule

section

variable {key : Text}

theorem decodePieces_of_noSlots (hkey : .bare '%' ∉ glyphs key) :
    decodePieces key = (decodeOrFault key).map (⟨·, []⟩) := by
  have huncut : ∀ g ∈ glyphs key, g.separates (· = '%') = false := by
    intro g hg
    cases g with
    | bare c => exact decide_eq_false fun hc => hkey (hc ▸ hg)
    | escaped c => rfl
    | dangling => rfl
  rw [decodePieces, split_bare huncut, Pieces.mapM]
  cases decodeOrFault key <;> rfl

variable {kind : RuleKind}

/-- What a rule without slots does, or the fault with which it is refused, follows from what its key
    and its value stand for. -/
theorem RawRule.compile_map_apply (hkind : kind.Copies) (hkey : .bare '%' ∉ glyphs key)
    (value : Text) :
    (compile ⟨kind, key, value⟩).map Rule.apply = do
      let k ← decodeOrFault key
      let v ← decodeOrFault value
      return Rule.apply ⟨kind, ⟨k, []⟩, ⟨v, []⟩⟩ := by
  have hvalue := decodeOrFault_split (c := '%') (by decide) value
  rw [compile, decodePieces_of_noSlots hkey, ← hvalue, decodePieces]
  cases decodeOrFault key with
  | error f => rfl
  | ok k =>
    cases (split (· = '%') value).mapM decodeOrFault with
    | error f => rfl
    | ok p =>
      have hjoined : Pieces.joinWith ['%'] ⟨p.joinWith ['%'], []⟩ = p.joinWith ['%'] :=
        List.append_nil _
      have happly := Rule.apply_congr_of_noSlots (r := ⟨kind, ⟨k, []⟩, p⟩) hkind rfl hjoined
      exact congrArg Except.ok happly.symm

/-- A percent sign stands for itself, with a backslash in front of it or without. -/
theorem decode_percent {s : Text} (hs : .dangling ∉ glyphs s) (t : Text) :
    decode (s ++ '%' :: t) = decode (s ++ '\\' :: '%' :: t) := by
  obtain ⟨u, hu⟩ := exists_decode_iff.mpr hs
  rw [decode_append hu, decode_append hu, decode, decode, glyphs_escaped, glyphs_bare (by decide)]
  rfl

/-- **A rule without slots inserts what its value stands for.** Let the key of a rule that copies
    its groups have no bare percent sign. If the rule can be compiled, its key and its whole value
    stand for something, and in every text that holds what the key stands for, the rule puts what
    the value stands for in the place of the first occurrence. It makes no difference whether a
    percent sign of the value is protected or not, neither to what the rule does nor to the fault
    with which it is refused.

    The reason is that decoding can be done piece by piece. A raw text stands for something exactly
    if each piece between bare percent signs does, and then it stands for these texts with percent
    signs between them. -/
theorem apply_inserts_value (hkind : kind.Copies) (hkey : .bare '%' ∉ glyphs key) :
    (∀ value rule, RawRule.compile ⟨kind, key, value⟩ = .ok rule →
      ∃ k v, decode key = some k ∧ decode value = some v ∧
        ∀ t, k <:+: t → ∃ before after, t = before ++ k ++ after ∧
          (∀ before' after', t = before' ++ k ++ after' → before.length ≤ before'.length) ∧
          rule.apply t = some (.ok (before ++ v ++ after))) ∧
    (∀ s t, .dangling ∉ glyphs s →
      (RawRule.compile ⟨kind, key, s ++ '%' :: t⟩).map Rule.apply =
        (RawRule.compile ⟨kind, key, s ++ '\\' :: '%' :: t⟩).map Rule.apply) ∧
    ∀ t,
      ((∃ u, decode t = some u) ↔
        ∀ raw ∈ (split (· = '%') t).toList, ∃ u, decode raw = some u) ∧
      ∀ u, decode t = some u ↔ ∃ p : Pieces,
        List.Forall₂ (fun raw w => decode raw = some w) (split (· = '%') t).toList p.toList ∧
          u = p.joinWith ['%'] := by
  refine ⟨fun value rule hcompile => ?_, fun s t hs => ?_, fun t =>
    ⟨exists_decode_split_iff, fun u => decode_split_iff (by decide)⟩⟩
  · have happly := RawRule.compile_map_apply hkind hkey value
    rw [hcompile] at happly
    obtain ⟨k, hk, hrest⟩ := bind_eq_ok_iff.mp happly.symm
    obtain ⟨v, hv, hpure⟩ := bind_eq_ok_iff.mp hrest
    refine ⟨k, v, decodeOrFault_eq_ok_iff.mp hk, decodeOrFault_eq_ok_iff.mp hv, fun t ht => ?_⟩
    rw [← Except.ok.inj hpure]
    have hinserts := Rule.apply_of_noSlots (r := ⟨kind, ⟨k, []⟩, ⟨v, []⟩⟩) hkind rfl ht
    simpa only [Pieces.joinWith, List.flatMap_nil, List.append_nil] using hinserts
  · rw [RawRule.compile_map_apply hkind hkey, RawRule.compile_map_apply hkind hkey, decodeOrFault,
      decodeOrFault, decodeOrFault, decode_percent hs]

end

/-- A key and a value with percent signs of both kinds. -/
theorem apply_inserts_value_percents :
    RuleKind.final.Copies ∧ .bare '%' ∉ glyphs "a\\%".toList ∧
      RawRule.compile ⟨.final, "a\\%".toList, "%\\%b%".toList⟩ =
        .ok ⟨.final, ⟨"a%".toList, []⟩, ⟨[], ["%b".toList, []]⟩⟩ ∧
      Rule.apply ⟨.final, ⟨"a%".toList, []⟩, ⟨[], ["%b".toList, []]⟩⟩ "xa%a%".toList =
        some (.ok "x%%b%a%".toList) := by
  have hkey : .bare '%' ∉ glyphs "a\\%".toList := by decide
  have hcompile : RawRule.compile ⟨.final, "a\\%".toList, "%\\%b%".toList⟩ =
      .ok ⟨.final, ⟨"a%".toList, []⟩, ⟨[], ["%b".toList, []]⟩⟩ := rfl
  obtain ⟨hinserts, -, -⟩ := apply_inserts_value (.inr rfl) hkey
  obtain ⟨k, v, hk, hv, happly⟩ := hinserts _ _ hcompile
  obtain rfl : k = "a%".toList := Option.some.inj (hk.symm.trans rfl)
  obtain rfl : v = "%%b%".toList := Option.some.inj (hv.symm.trans rfl)
  obtain ⟨before, after, htext, hfirst, hresult⟩ := happly "xa%a%".toList (by decide)
  have hlength : before.length ≤ 1 := hfirst "x".toList "a%".toList rfl
  obtain ⟨rfl, rfl⟩ : before = "x".toList ∧ after = "a%".toList := by
    match before, hlength, htext with
    | [], _, htext => cases htext
    | [c], _, htext => cases htext; exact ⟨rfl, rfl⟩
  exact ⟨.inr rfl, hkey, hcompile, hresult⟩

end NormalAlgorithm
