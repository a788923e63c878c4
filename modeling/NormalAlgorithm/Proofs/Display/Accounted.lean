import NormalAlgorithm.Proofs.Display.Windowed

/-!
# The size of what a transcript holds

A transcript keeps the size of its texts in one number, which grows with every text pushed and
shrinks with every text dropped. The number is never taken afresh from the texts, so a difference
that is cut off at zero, or a sum that does not fit the machine, would stay in it for good. Neither
occurs: arithmetic that refuses both gives the same transcripts, as long as the machine can hold the
size of all texts pushed together.

What the number is for follows from it. A transcript that is over its budget holds nothing that it
could have done without: one text behind the head, and a head that was within the budget until its
last text came.

Results:
* `Window.shed?_eq`: no difference is cut off while texts are dropped.
* `Transcript.FilledWith.push?_eq`: one push with arithmetic that refuses.
* `Transcript.FilledWith.takes_push`: the text pushed is not among those dropped.
* `Transcript.FilledWith.accounted`: what the size says about the texts held.
* `accounted_ofTexts`: all of this after any number of pushes.
-/

namespace NormalAlgorithm

/-! ## Arithmetic that refuses -/

/-- The sum of two numbers, unless it is larger than the machine can hold. -/
def plus? (largest m n : Nat) : Option Nat := if m + n ≤ largest then some (m + n) else none

/-- The difference of two numbers, unless it is below zero. -/
def minus? (m n : Nat) : Option Nat := if n ≤ m then some (m - n) else none

/-- Drops texts from the front of a tail, and fails where a difference is below zero. -/
def Window.shed? (w : Window) (size : Nat) : List Text → Option (List Text × Nat)
  | t :: u :: rest =>
    if w.budget < size || w.tail < rest.length + 2 then
      (minus? size (units t)).bind fun size => w.shed? size (u :: rest)
    else some (t :: u :: rest, size)
  | tail => some (tail, size)

/-- Adds the next text of a run, and fails where the machine cannot hold a number. -/
def Transcript.push? (largest : Nat) (x : Transcript) (t : Text) : Option Transcript :=
  (plus? largest x.size (units t)).bind fun size =>
    if x.closed then
      (x.window.shed? size (x.tail ++ [t])).map fun (tail, kept) =>
        { x with tail, size := kept, elided := x.elided + (x.tail.length + 1 - tail.length) }
    else
      let head := x.head ++ [t]
      some { x with
        head, size, closed := x.window.budget < size || x.window.head ≤ head.length }

/-! ## What a transcript holds -/

/-- What the size of a transcript says about the texts that it holds, with this budget. -/
structure Transcript.Accounted (x : Transcript) (budget : Nat) : Prop where
  /-- It is the size of these texts together. -/
  size_eq : x.size = totalUnits x.head + totalUnits x.tail
  /-- Over the budget, there is at most one text behind the head. -/
  tail_of_over : budget < x.size → x.tail.length ≤ 1
  /-- Over the budget, the head is within it but for its last text. -/
  head_of_over : budget < x.size → totalUnits x.head.dropLast ≤ budget

/-- What one more text does to a transcript. -/
inductive Transcript.Takes (x : Transcript) (t : Text) (y : Transcript) : Prop
  /-- The text goes to the end of the head, and nothing is dropped. -/
  | head (isOpen : x.closed = false) (head_eq : y.head = x.head ++ [t]) (tail_eq : y.tail = x.tail)
      (elided_eq : y.elided = x.elided)
  /-- The text goes to the end of the tail, and all texts dropped stood there before. -/
  | tail {dropped kept : List Text} (isClosed : x.closed = true) (head_eq : y.head = x.head)
      (before : x.tail = dropped ++ kept) (behind : y.tail = kept ++ [t])
      (elided_eq : y.elided = x.elided + dropped.length)

namespace Window

/-- The size of the texts kept is at least that of the text dropped, at every step of the loop. -/
theorem shed?_eq (w : Window) (spent : Nat) (ts : List Text) :
    w.shed? (spent + totalUnits ts) ts = some (w.shed (spent + totalUnits ts) ts) := by
  induction ts with
  | nil => rfl
  | cons t ts ih =>
    cases ts with
    | nil => rfl
    | cons u rest =>
      have hle : units t ≤ spent + totalUnits (t :: u :: rest) := by
        rw [totalUnits_cons t]
        omega
      have hsize : spent + totalUnits (t :: u :: rest) - units t =
          spent + totalUnits (u :: rest) := by
        rw [totalUnits_cons t]
        omega
      unfold shed? shed
      split_ifs with hdrop
      · rw [minus?, if_pos hle, Option.bind_some, hsize]
        exact ih
      · rfl

variable {w : Window} {spent : Nat} {texts behind head tail : List Text}

/-- Until its last text, a head is within the budget. -/
theorem IsHead.totalUnits_dropLast_le (h : w.IsHead texts head) :
    totalUnits head.dropLast ≤ w.budget := by
  by_cases hnil : head.dropLast = []
  · rw [hnil]
    exact Nat.zero_le _
  have hnotFilled : ¬ w.Fills head.dropLast := by
    cases h with
    | filled isPrefix nonempty _ shortest =>
      intro hfills
      have hle := shortest _ ((List.dropLast_prefix _).trans isPrefix) hnil hfills
      have hpos := List.length_pos_of_ne_nil nonempty
      rw [List.length_dropLast] at hle
      omega
    | unfilled neverFilled => exact neverFilled _ (List.dropLast_prefix _) hnil
  unfold Fills at hnotFilled
  omega

/-- A tail that is not affordable is the newest text alone. -/
theorem IsTail.length_le_one (h : w.IsTail spent behind tail)
    (hover : w.budget < spent + totalUnits tail) : tail.length ≤ 1 := by
  cases h with
  | nothing _ => exact Nat.zero_le _
  | longest _ _ affordable _ =>
    have hwithin := affordable.2
    omega
  | newest _ _ => exact le_rfl

end Window

namespace Transcript

variable {x : Transcript} {texts : List Text} {largest : Nat}

/-! ## One push -/

theorem FilledWith.size_le (h : x.FilledWith texts) : x.size ≤ totalUnits texts := by
  obtain ⟨between, htexts, -, -⟩ := h.parts
  rw [h.size_eq, htexts, totalUnits_append, totalUnits_append]
  omega

theorem FilledWith.push?_eq (h : x.FilledWith texts) {t : Text}
    (hfits : totalUnits (texts ++ [t]) ≤ largest) : x.push? largest t = some (x.push t) := by
  have hsum : x.size + units t ≤ largest := by
    have hle := h.size_le
    rw [totalUnits_append, totalUnits_cons, totalUnits_nil] at hfits
    omega
  have hsize : x.size + units t = totalUnits x.head + totalUnits (x.tail ++ [t]) := by
    rw [h.size_eq, totalUnits_append, totalUnits_cons, totalUnits_nil]
    omega
  unfold push? push
  rw [plus?, if_pos hsum, Option.bind_some]
  split_ifs with hclosed
  · rw [hsize, Window.shed?_eq, Option.map_some]
  · rfl

theorem FilledWith.takes_push (h : x.FilledWith texts) (t : Text) : x.Takes t (x.push t) := by
  cases hclosed : x.closed with
  | false =>
    rw [push_of_open hclosed]
    exact .head hclosed rfl rfl rfl
  | true =>
    obtain ⟨dropped, tail, hdropped, hshed, -⟩ := h.exists_shed t
    have hlast : tail.getLast? = some t := by
      have hsame := x.window.shed_getLast? (x.size + units t) (x.tail ++ [t])
      rw [hshed, List.getLast?_concat] at hsame
      exact hsame
    obtain ⟨kept, rfl⟩ := List.getLast?_eq_some_iff.mp hlast
    have hbefore : x.tail = dropped ++ kept := by
      rw [← List.append_assoc] at hdropped
      exact (List.append_cancel_right hdropped).symm
    rw [push_of_closed hclosed hshed]
    refine .tail hclosed rfl hbefore rfl ?_
    simp only [hbefore, List.length_append, List.length_singleton]
    omega

theorem FilledWith.accounted (h : x.FilledWith texts) : x.Accounted x.window.budget := by
  obtain ⟨between, htexts, -, hhead, htail⟩ := h.parts
  refine ⟨h.size_eq, ?_, ?_⟩
  · intro hover
    rw [h.size_eq] at hover
    exact htail.length_le_one hover
  · intro _
    exact hhead.totalUnits_dropLast_le

/-! ## All pushes -/

theorem foldlM_push? (w : Window) (hfits : totalUnits texts ≤ largest) :
    texts.foldlM (push? largest) { window := w } = some (ofTexts w texts) := by
  induction texts using List.reverseRecOn with
  | nil => rfl
  | append_singleton texts t ih =>
    have hearlier : totalUnits texts ≤ largest := by
      rw [totalUnits_append] at hfits
      omega
    rw [List.foldlM_append, ih hearlier, ofTexts_concat]
    simp [(filledWith_ofTexts w texts).1.push?_eq hfits]

end Transcript

/-- **A transcript keeps account of its size.** Texts are pushed, and all of them together are not
    larger than the machine can hold. Then no sum is too large and no difference is below zero: the
    transcript is the one that arithmetic gives which refuses both. Its size is that of the texts in
    head and tail; and if that is over the budget, there is at most one text in the tail, and the
    head without its last text is within the budget. No text is dropped by its own push. -/
theorem accounted_ofTexts {largest : Nat} {texts : List Text} (w : Window)
    (hfits : totalUnits texts ≤ largest) :
    texts.foldlM (Transcript.push? largest) { window := w } = some (Transcript.ofTexts w texts) ∧
    (Transcript.ofTexts w texts).Accounted w.budget ∧
    ∀ earlier t, earlier ++ [t] <+: texts →
      (Transcript.ofTexts w earlier).Takes t (Transcript.ofTexts w (earlier ++ [t])) := by
  refine ⟨Transcript.foldlM_push? w hfits, ?_, ?_⟩
  · obtain ⟨hfilled, hwindow⟩ := Transcript.filledWith_ofTexts w texts
    simpa only [hwindow] using hfilled.accounted
  · intro earlier t _
    rw [Transcript.ofTexts_concat]
    exact (Transcript.filledWith_ofTexts w earlier).1.takes_push t

/-- The second text spends the budget, and with numbers up to the size of all texts the three
    behind it are counted as well. -/
theorem accounted_ofTexts_over :
    let texts := ["aaa".toList, "bbb".toList, "c".toList, "d".toList, "e".toList]
    let x : Transcript :=
      { window := { budget := 5 }, head := ["aaa".toList, "bbb".toList], tail := ["e".toList],
        elided := 2, size := 7, closed := true }
    totalUnits texts ≤ 9 ∧ Transcript.ofTexts { budget := 5 } texts = x ∧
      texts.foldlM (Transcript.push? 9) { window := { budget := 5 } } = some x ∧ x.Accounted 5 ∧
      ∀ earlier t, earlier ++ [t] <+: texts → (Transcript.ofTexts { budget := 5 } earlier).Takes t
        (Transcript.ofTexts { budget := 5 } (earlier ++ [t])) := by
  intro texts x
  have hfits : totalUnits texts ≤ 9 := by decide
  have hx : Transcript.ofTexts { budget := 5 } texts = x := rfl
  obtain ⟨hpushed, haccounted, htakes⟩ := accounted_ofTexts { budget := 5 } hfits
  rw [hx] at hpushed haccounted
  exact ⟨hfits, hx, hpushed, haccounted, htakes⟩

end NormalAlgorithm
