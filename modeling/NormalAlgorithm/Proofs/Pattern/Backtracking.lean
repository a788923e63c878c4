import NormalAlgorithm.Pattern.Search
import NormalAlgorithm.Proofs.Pattern.Choice
import Mathlib.Tactic.SplitIfs

/-!
# The greedy reading

What the slots of a pattern take at the front of a text: of all readings there, the one with the
greatest list of group lengths. For digit slots the plain way to find it is to let each slot take
a whole run of digits and to give digits back until the rest of the pattern can be read. The
search fills a table for all ends of the text instead, and both give the same reading.

Results:
* `readDigits_eq`: the table holds the reading with backtracking for each end of the text.
* `readGreedily_eq_none_iff`, `readGreedily_greatest`: there is a greedy reading whenever there is
  any, and it is the greatest one.
-/

namespace NormalAlgorithm

/-! ## Reading with backtracking -/

/-- Takes as many digits as possible, perhaps none, so that the text behind them can be read. -/
def longestRun (next : Text → Option Reading) : Text → Option (Text × Reading)
  | [] => (next []).map fun r => ([], r)
  | c :: t =>
    (if c.isDigit then (longestRun next t).map fun (run, r) => (c :: run, r) else none).or
      ((next (c :: t)).map fun r => ([], r))

/-- Takes a leading digit and as many further digits as possible. -/
def ledRun (next : Text → Option Reading) : Text → Option Reading
  | [] => none
  | c :: t =>
    if isLeadingDigit c then
      (longestRun next t).map fun (run, r) => ⟨(c :: run) :: r.groups, r.after⟩
    else none

/-- Reads a literal, and then what `next` reads. -/
def behindLiteral (literal : Text) (next : Text → Option Reading) (t : Text) : Option Reading :=
  (stripStart? literal t).bind next

/-- Reads digit slots, each followed by its literal, at the front of a text. -/
def readRuns : List Text → Text → Option Reading
  | [], t => some ⟨[], t⟩
  | literal :: rest, t => ledRun (behindLiteral literal (readRuns rest)) t

/-! ## The table -/

/-- The entry of a table for the end `t` of a text. -/
theorem headD_drop_suffixes {α : Type} (f : Text → Option α) (u t : Text) :
    (((suffixes (u ++ t)).map f).drop u.length).headD none = f t := by
  induction u with
  | nil => cases t <;> rfl
  | cons c u ih => simpa [suffixes] using ih

/-- The table of readings behind a literal, from the table of what is read there. -/
theorem afterLiteral_eq (literal t : Text) (f : Text → Option Reading) :
    afterLiteral literal t (((suffixes t).map f).drop literal.length) =
      (suffixes t).map (behindLiteral literal f) := by
  induction t with
  | nil => cases literal <;> simp [afterLiteral, suffixes, behindLiteral, stripStart?]
  | cons c t ih =>
    have htail : (((suffixes (c :: t)).map f).drop literal.length).tail =
        ((suffixes t).map f).drop literal.length := List.tail_drop
    rw [afterLiteral, htail, ih, suffixes, List.map_cons]
    congr 1
    cases hs : stripStart? literal (c :: t) with
    | none => rw [behindLiteral, hs]; rfl
    | some u =>
      have hentry := headD_drop_suffixes f literal u
      rw [← stripStart?_eq_some_iff.mp hs] at hentry
      rw [behindLiteral, hs]
      exact hentry

theorem moreDigits_eq (t : Text) (next : Text → Option Reading) :
    moreDigits t ((suffixes t).map next) = (suffixes t).map (longestRun next) := by
  induction t with
  | nil => rfl
  | cons c t ih =>
    have hhead : ((suffixes t).map (longestRun next)).headD none = longestRun next t :=
      headD_drop_suffixes (longestRun next) [] t
    simp only [suffixes, List.map_cons, moreDigits, List.tail_cons, ih, hhead, List.headD_cons,
      longestRun]

theorem ledBySlot_eq (t : Text) (next : Text → Option Reading) :
    ledBySlot t ((suffixes t).map (longestRun next)) = (suffixes t).map (ledRun next) := by
  induction t with
  | nil => rfl
  | cons c t ih =>
    have hhead : ((suffixes t).map (longestRun next)).headD none = longestRun next t :=
      headD_drop_suffixes (longestRun next) [] t
    simp only [suffixes, List.map_cons, ledBySlot, List.tail_cons, ih, hhead, ledRun]

/-- The table holds, for each end of the text, the reading with backtracking there. -/
theorem readDigits_eq (t : Text) (literals : List Text) :
    readDigits t literals = (suffixes t).map (readRuns literals) := by
  induction literals with
  | nil => rfl
  | cons literal rest ih => rw [readDigits, ih, afterLiteral_eq, moreDigits_eq, ledBySlot_eq]; rfl

/-! ## Runs of digits -/

/-- A run that is found is made of digits, and what follows is read behind it. -/
theorem longestRun_sound {next : Text → Option Reading} {t run : Text} {r : Reading}
    (h : longestRun next t = some (run, r)) :
    ∃ u, t = run ++ u ∧ (∀ c ∈ run, c.isDigit = true) ∧ next u = some r := by
  induction t generalizing run with
  | nil =>
    obtain ⟨r', hr, heq⟩ := Option.map_eq_some_iff.mp h
    cases heq
    exact ⟨[], by simpa using hr⟩
  | cons c t ih =>
    rw [longestRun, Option.or_eq_some_iff] at h
    rcases h with htaken | ⟨-, hempty⟩
    · split_ifs at htaken with hc
      obtain ⟨⟨run', r'⟩, hrun, heq⟩ := Option.map_eq_some_iff.mp htaken
      cases heq
      obtain ⟨u, rfl, hdigits, hnext⟩ := ih hrun
      exact ⟨u, rfl, List.forall_mem_cons.mpr ⟨hc, hdigits⟩, hnext⟩
    · obtain ⟨r', hr, heq⟩ := Option.map_eq_some_iff.mp hempty
      cases heq
      exact ⟨c :: t, by simpa using hr⟩

/-- Whenever the text can be read behind some run, a run that is as long is found. -/
theorem longestRun_complete {next : Text → Option Reading} {run u : Text}
    (hrun : ∀ c ∈ run, c.isDigit = true) (hnext : (next u).isSome = true) :
    ∃ run' r', longestRun next (run ++ u) = some (run', r') ∧ run.length ≤ run'.length := by
  induction run with
  | nil =>
    obtain ⟨r, hr⟩ := Option.isSome_iff_exists.mp hnext
    cases u with
    | nil => exact ⟨[], r, by simp [longestRun, hr], Nat.zero_le _⟩
    | cons c u =>
      cases htaken : if c.isDigit then (longestRun next u).map fun (run, r) => (c :: run, r)
          else none with
      | none => exact ⟨[], r, by simp [longestRun, htaken, hr], Nat.zero_le _⟩
      | some taken => exact ⟨taken.1, taken.2, by simp [longestRun, htaken], Nat.zero_le _⟩
  | cons c run ih =>
    obtain ⟨hc, hrun⟩ := List.forall_mem_cons.mp hrun
    obtain ⟨run', r', hlongest, hlen⟩ := ih hrun
    exact ⟨c :: run', r', by simp [longestRun, hc, hlongest], Nat.succ_le_succ hlen⟩

/-! ## The greatest reading -/

/-- A reading of slots at the front of a text, such that every other one has a smaller list of
    group lengths. -/
structure Greatest (slot : Slot) (literals : List Text) (t : Text) (r : Reading) : Prop where
  reads : Reads slot literals t r
  greatest : ∀ r', Reads slot literals t r' →
    r' = r ∨ List.Lex (· < ·) (lengths r'.groups) (lengths r.groups)

theorem reads_cons_iff {slot : Slot} {literal : Text} {rest : List Text} {t : Text} {r : Reading} :
    Reads slot (literal :: rest) t r ↔
      ∃ g u r', t = g ++ (literal ++ u) ∧ slot.accepts g = true ∧ Reads slot rest u r' ∧
        r = ⟨g :: r'.groups, r'.after⟩ := by
  constructor
  · rintro (_ | ⟨_, accepted, further⟩)
    exact ⟨_, _, _, List.append_assoc _ _ _, accepted, further, rfl⟩
  · rintro ⟨g, u, r', rfl, accepted, further, rfl⟩
    rw [← List.append_assoc]
    exact .slot literal accepted further

/-! ## One character a slot -/

/-- Slots of one character leave no choice. -/
theorem readChars_complete {literals : List Text} {t : Text} {r : Reading}
    (h : Reads .char literals t r) : readChars literals t = some r := by
  induction literals generalizing t r with
  | nil => cases h; rfl
  | cons literal rest ih =>
    obtain ⟨g, u, r', rfl, accepted, further, rfl⟩ := reads_cons_iff.mp h
    obtain ⟨c, rfl⟩ := Slot.accepts_iff.mp accepted
    simp [readChars, stripStart?_append, ih further]

theorem readChars_greatest {literals : List Text} {t : Text} {r : Reading}
    (h : readChars literals t = some r) : Greatest .char literals t r where
  reads := readChars_reads h
  greatest _ hr' := .inl (Option.some.inj ((readChars_complete hr').symm.trans h))

/-! ## Digits -/

theorem behindLiteral_eq_some_iff {literal : Text} {next : Text → Option Reading} {t : Text}
    {r : Reading} :
    behindLiteral literal next t = some r ↔ ∃ u, t = literal ++ u ∧ next u = some r := by
  simp [behindLiteral, Option.bind_eq_some_iff, stripStart?_eq_some_iff]

/-- A digit slot takes a leading digit and digits behind it. -/
theorem accepts_digits_iff {g : Text} :
    Slot.accepts .digits g = true ↔
      ∃ c run, g = c :: run ∧ isLeadingDigit c = true ∧ ∀ d ∈ run, d.isDigit = true := by
  cases g with
  | nil => simp [Slot.accepts]
  | cons c run =>
    rw [Slot.accepts, Bool.and_eq_true, List.all_eq_true]
    constructor
    · exact fun h => ⟨c, run, rfl, h⟩
    · rintro ⟨_, _, heq, h⟩
      cases heq
      exact h

theorem ledRun_sound {next : Text → Option Reading} {t : Text} {r : Reading}
    (h : ledRun next t = some r) :
    ∃ g u r', t = g ++ u ∧ Slot.accepts .digits g = true ∧ next u = some r' ∧
      r = ⟨g :: r'.groups, r'.after⟩ := by
  cases t with
  | nil => simp [ledRun] at h
  | cons c t =>
    rw [ledRun] at h
    split_ifs at h with hc
    obtain ⟨⟨run, r'⟩, hrun, rfl⟩ := Option.map_eq_some_iff.mp h
    obtain ⟨u, rfl, hdigits, hnext⟩ := longestRun_sound hrun
    exact ⟨c :: run, u, r', rfl, accepts_digits_iff.mpr ⟨c, run, rfl, hc, hdigits⟩, hnext, rfl⟩

/-- Whenever the text can be read behind some group, it is read behind a group that is as long. -/
theorem ledRun_complete {next : Text → Option Reading} {g u : Text}
    (accepted : Slot.accepts .digits g = true) (hnext : (next u).isSome = true) :
    ∃ (g' : Text) (r' : Reading), ledRun next (g ++ u) = some ⟨g' :: r'.groups, r'.after⟩ ∧
      g.length ≤ g'.length := by
  obtain ⟨c, run, rfl, hc, hdigits⟩ := accepts_digits_iff.mp accepted
  obtain ⟨run', r', hlongest, hlen⟩ := longestRun_complete hdigits hnext
  exact ⟨c :: run', r', by simp [ledRun, hc, hlongest], Nat.succ_le_succ hlen⟩

theorem readRuns_isSome {literals : List Text} {t : Text} {r : Reading}
    (h : Reads .digits literals t r) : (readRuns literals t).isSome = true := by
  induction literals generalizing t r with
  | nil => rfl
  | cons literal rest ih =>
    obtain ⟨g, u, r', rfl, accepted, further, rfl⟩ := reads_cons_iff.mp h
    obtain ⟨r₁, hr₁⟩ := Option.isSome_iff_exists.mp (ih further)
    have hnext : behindLiteral literal (readRuns rest) (literal ++ u) = some r₁ :=
      behindLiteral_eq_some_iff.mpr ⟨u, rfl, hr₁⟩
    obtain ⟨g', r₂, hled, -⟩ := ledRun_complete accepted (Option.isSome_of_eq_some hnext)
    exact Option.isSome_of_eq_some hled

theorem readRuns_greatest {literals : List Text} {t : Text} {r : Reading}
    (h : readRuns literals t = some r) : Greatest .digits literals t r := by
  induction literals generalizing t r with
  | nil =>
    cases h
    exact ⟨.done t, fun r' hr' => by cases hr'; exact .inl rfl⟩
  | cons literal rest ih =>
    obtain ⟨g, u, r₁, rfl, accepted, hnext, rfl⟩ := ledRun_sound h
    obtain ⟨v, rfl, hv⟩ := behindLiteral_eq_some_iff.mp hnext
    obtain ⟨hreads, hgreatest⟩ := ih hv
    refine ⟨reads_cons_iff.mpr ⟨g, v, r₁, rfl, accepted, hreads, rfl⟩, fun r' hr' => ?_⟩
    obtain ⟨g', v', r₁', htext, accepted', further', rfl⟩ := reads_cons_iff.mp hr'
    have hnext' : (behindLiteral literal (readRuns rest) (literal ++ v')).isSome = true := by
      obtain ⟨r₂, hr₂⟩ := Option.isSome_iff_exists.mp (readRuns_isSome further')
      exact Option.isSome_of_eq_some (behindLiteral_eq_some_iff.mpr ⟨v', rfl, hr₂⟩)
    have hle : g'.length ≤ g.length := by
      obtain ⟨g₂, r₂, hled, hlen⟩ := ledRun_complete accepted' hnext'
      rw [← htext] at hled
      have hsame := hled.symm.trans h
      simp only [Option.some.injEq, Reading.mk.injEq, List.cons.injEq] at hsame
      rwa [hsame.1.1] at hlen
    rcases Nat.lt_or_eq_of_le hle with hlt | heq
    · exact .inr (.rel hlt)
    · obtain ⟨rfl, hbehind⟩ := List.append_inj htext heq.symm
      obtain rfl := List.append_cancel_left hbehind
      rcases hgreatest r₁' further' with rfl | hlex
      · exact .inl rfl
      · exact .inr (.cons hlex)

/-! ## Either kind of slot -/

/-- Reads slots, each followed by its literal, at the front of a text. -/
def readGreedily : Slot → List Text → Text → Option Reading
  | .char => readChars
  | .digits => readRuns

theorem readGreedily_greatest {slot : Slot} {literals : List Text} {t : Text} {r : Reading}
    (h : readGreedily slot literals t = some r) : Greatest slot literals t r := by
  cases slot with
  | char => exact readChars_greatest h
  | digits => exact readRuns_greatest h

theorem readGreedily_eq_none_iff {slot : Slot} {literals : List Text} {t : Text} :
    readGreedily slot literals t = none ↔ ∀ r, ¬ Reads slot literals t r := by
  constructor
  · intro h r hr
    cases slot with
    | char => simp [readGreedily, readChars_complete hr] at h
    | digits =>
      have hsome := readRuns_isSome hr
      rw [show readRuns literals t = none from h] at hsome
      simp at hsome
  · intro h
    rw [Option.eq_none_iff_forall_ne_some]
    exact fun r hr => h r (readGreedily_greatest hr).reads

end NormalAlgorithm
