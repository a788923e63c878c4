import NormalAlgorithm.Proofs.Display.Windowed
import Mathlib.Data.List.Forall2

/-!
# Numbers and places

A transcript does not store the places of its texts. It numbers them when it is shown: the head from
one on, and the tail from what it has counted by then. These numbers are the places at which the
texts were pushed. The tail ends with the text pushed last, so the count of the texts in front of it
is exact, however many were dropped by one push and however few by another; and the number in the
gap is that of the places which no line bears.

Results:
* `missing_eq`: the places between those of a beginning and those of an end.
* `Transcript.numbered_part`: numbered from behind what stands before it, a part of the texts bears
  the numbers of its places.
* `Transcript.entries_of_parts`: the lines of a transcript, by places.
* `getElem?_of_mem_linesFor`: a line shows the text at the place that it names.
* `Transcript.Entry.printed_render`, `Transcript.Entry.printed_unique`, `printed_linesFor`: how
  lines are printed.
* `render_ofTexts`: what is printed of texts that were pushed.
-/

namespace NormalAlgorithm

/-! ## Places -/

/-- Of so many places, counted from one, those that are not shown. -/
def missing (total : Nat) (shown : List Nat) : List Nat :=
  (List.range' 1 total).filter fun n => n ∉ shown

/-- The line that shows the text pushed at a place. -/
def lineAt (texts : List Text) (n : Nat) : Transcript.Entry := .text n (texts.getD (n - 1) [])

/-- The lines for the texts at the first places and at the last, so many of each. If any place is
    missing, a line between them tells how many are. -/
def linesFor (texts : List Text) (first last : Nat) : List Transcript.Entry :=
  let head := List.range' 1 first
  let tail := List.range' (texts.length - last + 1) last
  let gap := missing texts.length (head ++ tail)
  head.map (lineAt texts) ++ (if gap = [] then [] else [.gap gap.length]) ++ tail.map (lineAt texts)

/-- Places that are shown are not missing. -/
theorem filter_notMem_of_subset {part shown : List Nat} (h : part ⊆ shown) :
    part.filter (fun n => n ∉ shown) = [] := by
  rw [List.filter_eq_nil_iff]
  intro n hn
  simpa using h hn

/-- The places that belong neither to a beginning nor to an end are the ones between. -/
theorem missing_eq (h e t : Nat) :
    missing (h + e + t) (List.range' 1 h ++ List.range' (h + e + 1) t) = List.range' (h + 1) e := by
  have hall : List.range' 1 (h + e + t) =
      List.range' 1 h ++ List.range' (h + 1) e ++ List.range' (h + e + 1) t := by
    rw [show h + 1 = 1 + h by omega, show h + e + 1 = 1 + (h + e) by omega,
      List.range'_append_1, List.range'_append_1]
  generalize hshown : List.range' 1 h ++ List.range' (h + e + 1) t = shown
  have hhead : List.range' 1 h ⊆ shown := hshown ▸ List.subset_append_left _ _
  have htail : List.range' (h + e + 1) t ⊆ shown := hshown ▸ List.subset_append_right _ _
  have hbetween : (List.range' (h + 1) e).filter (fun n => n ∉ shown) = List.range' (h + 1) e := by
    rw [List.filter_eq_self]
    intro n hn
    rw [List.mem_range'_1] at hn
    rw [decide_eq_true_eq, ← hshown, List.mem_append, List.mem_range'_1, List.mem_range'_1]
    omega
  rw [missing, hall, List.filter_append, List.filter_append, filter_notMem_of_subset hhead,
    hbetween, filter_notMem_of_subset htail, List.nil_append, List.append_nil]

/-- A line that shows a text shows the text pushed at the place that it names. -/
theorem getElem?_of_mem_linesFor {texts : List Text} {first last n : Nat} {t : Text}
    (hle : first + last ≤ texts.length) (h : .text n t ∈ linesFor texts first last) :
    1 ≤ n ∧ texts[n - 1]? = some t := by
  have hplace : ∃ m, 1 ≤ m ∧ m ≤ texts.length ∧ lineAt texts m = .text n t := by
    simp only [linesFor, List.mem_append, List.mem_map, List.mem_range'_1] at h
    rcases h with (⟨m, hm, hline⟩ | hgap) | ⟨m, hm, hline⟩
    · exact ⟨m, by omega, by omega, hline⟩
    · split_ifs at hgap <;> simp at hgap
    · exact ⟨m, by omega, by omega, hline⟩
  obtain ⟨m, hone, hm, hline⟩ := hplace
  injection hline with hnumber htext
  subst hnumber
  have hlt : m - 1 < texts.length := by omega
  refine ⟨hone, ?_⟩
  rw [← htext, List.getElem?_eq_getElem hlt, List.getD_eq_getElem?_getD,
    List.getElem?_eq_getElem hlt, Option.getD_some]

namespace Transcript

/-! ## Lines -/

theorem numbered_part (before part after : List Text) :
    numbered (before.length + 1) part =
      (List.range' (before.length + 1) part.length).map (lineAt (before ++ part ++ after)) := by
  induction part generalizing before with
  | nil => rfl
  | cons t part ih =>
    have hrest := ih (before ++ [t])
    rw [List.length_append, List.length_singleton] at hrest
    have htexts : before ++ [t] ++ part ++ after = before ++ t :: part ++ after := by simp
    have hfirst : lineAt (before ++ t :: part ++ after) (before.length + 1) =
        .text (before.length + 1) t := by
      simp [lineAt]
    rw [numbered, hrest, htexts, List.length_cons, List.range'_succ, List.map_cons, hfirst]

/-- What a transcript shows of its texts, if it has counted the texts between its parts. -/
theorem entries_of_parts {x : Transcript} {texts between : List Text}
    (htexts : texts = x.head ++ between ++ x.tail) (helided : between.length = x.elided) :
    x.entries = linesFor texts x.head.length x.tail.length := by
  have hlength : texts.length = x.head.length + x.elided + x.tail.length := by
    rw [htexts, List.length_append, List.length_append, helided]
  have hhead : numbered 1 x.head = (List.range' 1 x.head.length).map (lineAt texts) := by
    rw [htexts, List.append_assoc]
    exact numbered_part [] x.head (between ++ x.tail)
  have htail : numbered (x.head.length + x.elided + 1) x.tail =
      (List.range' (x.head.length + x.elided + 1) x.tail.length).map (lineAt texts) := by
    have hpart := numbered_part (x.head ++ between) x.tail []
    rwa [List.length_append, helided, List.append_nil, ← htexts] at hpart
  have hplace : texts.length - x.tail.length + 1 = x.head.length + x.elided + 1 := by omega
  have hmissing : missing texts.length (List.range' 1 x.head.length ++
      List.range' (x.head.length + x.elided + 1) x.tail.length) =
      List.range' (x.head.length + 1) x.elided := by
    rw [hlength]
    exact missing_eq _ _ _
  have hgap : (if List.range' (x.head.length + 1) x.elided = [] then []
      else [Entry.gap (List.range' (x.head.length + 1) x.elided).length]) =
      if 0 < x.elided then [Entry.gap x.elided] else [] := by
    rw [List.length_range']
    cases x.elided <;> simp
  unfold entries linesFor
  dsimp only
  rw [hplace, hmissing, hgap, hhead, htail]

/-! ## Printing -/

/-- What is printed for a line, where numbers are aligned on the right to a width. The line of a
    text is its number, behind as many spaces as it lacks, a full stop, a space and the text. The
    line of a gap is indented by the width and by two spaces more, and tells the count. -/
inductive Entry.Printed (palette : Palette) (width : Nat) : Entry → Text → Prop
  | text (number : Nat) (t : Text) (spaces : Nat)
      (aligned : spaces + (decimal number).length = width) :
      Printed palette width (.text number t)
        (palette.paint .gray (List.replicate spaces ' ' ++ decimal number ++ ['.']) ++ [' '] ++
          palette.paint .green t ++ ['\n'])
  | gap (count : Nat) :
      Printed palette width (.gap count)
        (palette.paint .dim (List.replicate (width + 2) ' ' ++ "… ".toList ++ decimal count ++
          " snapshots elided …".toList) ++ ['\n'])

theorem Entry.printed_render {palette : Palette} {width : Nat} {e : Entry}
    (h : ∀ n t, e = .text n t → (decimal n).length ≤ width) :
    e.Printed palette width (e.render palette width) := by
  cases e with
  | text n t => exact .text n t _ (Nat.sub_add_cancel (h n t rfl))
  | gap count =>
    have hindent : List.replicate width ' ' ++ "  … ".toList =
        List.replicate (width + 2) ' ' ++ "… ".toList := by
      rw [List.replicate_add, List.append_assoc]
      rfl
    rw [Entry.render, hindent]
    exact .gap count

theorem Entry.printed_unique {palette : Palette} {width : Nat} :
    Relator.RightUnique (Entry.Printed palette width) := by
  intro e printed printed' h h'
  cases h with
  | text number t spaces aligned =>
    cases h' with
    | text _ _ spaces' aligned' =>
      obtain rfl : spaces = spaces' := Nat.add_right_cancel (aligned.trans aligned'.symm)
      rfl
  | gap count =>
    cases h'
    rfl

end Transcript

/-- Every number in the lines for texts finds room in the width of the last. -/
theorem printed_linesFor (palette : Palette) {texts : List Text} {first last : Nat}
    (hle : first + last ≤ texts.length) :
    let width := (decimal texts.length).length
    let lines := linesFor texts first last
    List.Forall₂ (Transcript.Entry.Printed palette width) lines
      (lines.map (Transcript.Entry.render palette width)) := by
  intro width lines
  rw [List.forall₂_map_right_iff, List.forall₂_same]
  rintro e he
  refine Transcript.Entry.printed_render ?_
  rintro n t rfl
  obtain ⟨hone, hplace⟩ := getElem?_of_mem_linesFor hle he
  obtain ⟨hlt, -⟩ := List.getElem?_eq_some_iff.mp hplace
  exact length_decimal_le (by omega)

/-- **Printed numbers are true positions.** Whatever the window is, a transcript of pushed texts
    shows the first of them and the last of them, and these are the texts of its head and of its
    tail. Each is shown on a line with the number of its place, in order; if there are places that
    no line bears, one line between the two parts gives their number, and otherwise there is none.
    What is printed is what is printed for each line, and the numbers are aligned to the width of
    the last. The transcript has counted all texts, and its last text is the one pushed last. -/
theorem render_ofTexts (palette : Palette) (w : Window) (texts : List Text) :
    let x := Transcript.ofTexts w texts
    let lines := linesFor texts x.head.length x.tail.length
    (∃ printed, x.render palette = printed.flatten ∧
      List.Forall₂ (Transcript.Entry.Printed palette (decimal texts.length).length)
        lines printed) ∧
    (∀ n t, .text n t ∈ lines → 1 ≤ n ∧ texts[n - 1]? = some t) ∧
    x.head.length + x.tail.length ≤ texts.length ∧
    x.head = texts.take x.head.length ∧ x.tail = texts.drop (texts.length - x.tail.length) ∧
    x.total = texts.length ∧ x.last? = texts.getLast? := by
  intro x lines
  obtain ⟨between, htexts, helided⟩ :
      ∃ between, texts = x.head ++ between ++ x.tail ∧ between.length = x.elided := by
    obtain ⟨between, htexts, helided, -⟩ := Transcript.divides_ofTexts w texts
    exact ⟨between, htexts, helided⟩
  have hlength := congrArg List.length htexts
  simp only [List.length_append] at hlength
  have hle : x.head.length + x.tail.length ≤ texts.length := by omega
  have htotal : x.total = texts.length := Transcript.total_ofTexts w texts
  have hfront : texts.length - x.tail.length = (x.head ++ between).length := by
    rw [List.length_append]
    omega
  refine ⟨⟨_, ?_, printed_linesFor palette hle⟩, fun n t => getElem?_of_mem_linesFor hle, hle,
    ?_, ?_, htotal, Transcript.last?_ofTexts w texts⟩
  · rw [Transcript.render, Transcript.entries_of_parts htexts helided, htotal, List.flatMap]
  · rw [htexts, List.append_assoc, List.take_left]
  · rw [hfront, htexts, List.drop_left]

/-- Nine of twelve texts are dropped. The two behind them keep their numbers, and the first number
    is aligned with theirs. -/
theorem render_ofTexts_aligned :
    (Transcript.ofTexts { head := 1, tail := 2 } ("abcdefghijkl".toList.map ([·]))).render .plain =
      " 1. a\n    … 9 snapshots elided …\n11. k\n12. l\n".toList := by
  obtain ⟨⟨printed, hrender, hprinted⟩, -⟩ :=
    render_ofTexts .plain { head := 1, tail := 2 } ("abcdefghijkl".toList.map ([·]))
  let lines : List Transcript.Entry :=
    [.text 1 "a".toList, .gap 9, .text 11 "k".toList, .text 12 "l".toList]
  have hlines : List.Forall₂ (Transcript.Entry.Printed .plain 2) lines printed := hprinted
  rw [hrender, List.right_unique_forall₂' Transcript.Entry.printed_unique hlines
    (.cons (.text 1 _ 1 rfl) (.cons (.gap 9) (.cons (.text 11 _ 0 rfl)
      (.cons (.text 12 _ 0 rfl) .nil))))]
  decide +kernel

end NormalAlgorithm
