import NormalAlgorithm.Display.Transcript
import Mathlib.Data.List.Infix
import Mathlib.Tactic.SplitIfs

/-!
# What a transcript keeps

A transcript is filled text by text, and a text that was dropped does not come back. What it holds
in the end can be said without any pushes, of all texts at once: the head is the shortest beginning
that fills it, and the tail is the longest end that the window and the budget afford behind this
head. Only where no end is affordable is there more than that: the newest text is kept.

Nothing is lost by dropping early. An end that is affordable stays affordable without its newest
text, so it was affordable before this text came, and its texts are all still there.

Results:
* `Window.IsHead.unique`, `Window.IsTail.unique`, `Window.Divides.unique`: the parts are determined
  by the texts.
* `Window.shed_eq`: dropping from the front stops at the tail of what was there.
* `Window.IsTail.concat`: the tail of a tail and one more text is the tail of all texts.
* `Transcript.filledWith_push`, `Transcript.filledWith_ofTexts`: what a push keeps, and all pushes.
* `Transcript.total_ofTexts`, `Transcript.last?_ofTexts`, `Transcript.result?_ofTexts`: no window is
  too small for the number of the texts, the last text and the result.
* `parts_ofTexts_iff`: a transcript shows these parts of the texts, and no others.
-/

namespace NormalAlgorithm

/-! ## Windows over all texts -/

/-- The size of texts together. -/
def totalUnits : List Text → Nat
  | [] => 0
  | t :: ts => units t + totalUnits ts

@[simp] theorem totalUnits_nil : totalUnits [] = 0 := rfl

@[simp] theorem totalUnits_cons (t : Text) (ts : List Text) :
    totalUnits (t :: ts) = units t + totalUnits ts := rfl

@[simp] theorem totalUnits_append (ts us : List Text) :
    totalUnits (ts ++ us) = totalUnits ts + totalUnits us := by
  induction ts with
  | nil => simp
  | cons t ts ih => simp [ih, Nat.add_assoc]

namespace Window

/-- The texts fill the head: they are as many as the window allows, or larger than the budget. -/
def Fills (w : Window) (ts : List Text) : Prop := w.head ≤ ts.length ∨ w.budget < totalUnits ts

/-- The texts can be kept as a tail behind a head of this size. -/
def Affords (w : Window) (spent : Nat) (ts : List Text) : Prop :=
  ts.length ≤ w.tail ∧ spent + totalUnits ts ≤ w.budget

/-- The head of texts. -/
inductive IsHead (w : Window) (texts : List Text) : List Text → Prop
  /-- The shortest beginning that fills it; the empty one does not count. -/
  | filled {head : List Text} (isPrefix : head <+: texts) (nonempty : head ≠ [])
      (fills : w.Fills head)
      (shortest : ∀ p, p <+: texts → p ≠ [] → w.Fills p → head.length ≤ p.length) :
      IsHead w texts head
  /-- All texts, if no beginning fills it. -/
  | unfilled (neverFilled : ∀ p, p <+: texts → p ≠ [] → ¬ w.Fills p) : IsHead w texts texts

/-- The tail of the texts behind a head of this size. -/
inductive IsTail (w : Window) (spent : Nat) (behind : List Text) : List Text → Prop
  /-- There are no texts behind the head. -/
  | nothing (nothingBehind : behind = []) : IsTail w spent behind []
  /-- The longest end that is affordable; the empty one does not count. -/
  | longest {tail : List Text} (isSuffix : tail <:+ behind) (nonempty : tail ≠ [])
      (affordable : w.Affords spent tail)
      (greatest : ∀ s, s <:+ behind → s ≠ [] → w.Affords spent s → s.length ≤ tail.length) :
      IsTail w spent behind tail
  /-- The newest text, if no end is affordable. -/
  | newest {t : Text} (isSuffix : [t] <:+ behind)
      (noneAffordable : ∀ s, s <:+ behind → s ≠ [] → ¬ w.Affords spent s) :
      IsTail w spent behind [t]

/-- The window divides texts into these parts, and shows the first and the last. -/
structure Divides (w : Window) (head between tail : List Text) : Prop where
  isHead : w.IsHead (head ++ between ++ tail) head
  isTail : w.IsTail (totalUnits head) (between ++ tail) tail

/-! ## The parts are determined -/

section

variable {w : Window} {spent : Nat} {texts behind head head' tail tail' : List Text}

theorem IsHead.unique (h : w.IsHead texts head) (h' : w.IsHead texts head') : head = head' := by
  cases h with
  | filled isPrefix nonempty fills shortest =>
    cases h' with
    | filled isPrefix' nonempty' fills' shortest' =>
      have hle : head.length ≤ head'.length := shortest head' isPrefix' nonempty' fills'
      have hge : head'.length ≤ head.length := shortest' head isPrefix nonempty fills
      exact (List.prefix_of_prefix_length_le isPrefix isPrefix' hle).eq_of_length (by omega)
    | unfilled neverFilled => exact absurd fills (neverFilled head isPrefix nonempty)
  | unfilled neverFilled =>
    cases h' with
    | filled isPrefix' nonempty' fills' _ =>
      exact absurd fills' (neverFilled head' isPrefix' nonempty')
    | unfilled _ => rfl

theorem IsTail.isSuffix (h : w.IsTail spent behind tail) : tail <:+ behind := by
  cases h with
  | nothing _ => exact List.nil_suffix
  | longest isSuffix _ _ _ => exact isSuffix
  | newest isSuffix _ => exact isSuffix

theorem IsTail.unique (h : w.IsTail spent behind tail) (h' : w.IsTail spent behind tail') :
    tail = tail' := by
  have heq (hlength : tail.length = tail'.length) : tail = tail' :=
    (List.suffix_of_suffix_length_le h.isSuffix h'.isSuffix hlength.le).eq_of_length hlength
  cases h with
  | nothing nothingBehind =>
    have hsuffix := h'.isSuffix
    rw [nothingBehind] at hsuffix
    exact (List.suffix_nil.mp hsuffix).symm
  | longest isSuffix nonempty affordable greatest =>
    cases h' with
    | nothing nothingBehind =>
      rw [nothingBehind] at isSuffix
      exact List.suffix_nil.mp isSuffix
    | longest isSuffix' nonempty' affordable' greatest' =>
      have hle := greatest' tail isSuffix nonempty affordable
      have hge := greatest tail' isSuffix' nonempty' affordable'
      exact heq (by omega)
    | newest _ noneAffordable => exact absurd affordable (noneAffordable tail isSuffix nonempty)
  | newest isSuffix noneAffordable =>
    cases h' with
    | nothing nothingBehind =>
      rw [nothingBehind] at isSuffix
      exact List.suffix_nil.mp isSuffix
    | longest isSuffix' nonempty' affordable' _ =>
      exact absurd affordable' (noneAffordable tail' isSuffix' nonempty')
    | newest _ _ => exact heq rfl

theorem Divides.unique {between between' : List Text} (h : w.Divides head between tail)
    (h' : w.Divides head' between' tail')
    (htexts : head ++ between ++ tail = head' ++ between' ++ tail') :
    head = head' ∧ between = between' ∧ tail = tail' := by
  obtain ⟨hhead, htail⟩ := h
  obtain ⟨hhead', htail'⟩ := h'
  rw [htexts] at hhead
  obtain rfl := hhead.unique hhead'
  have hbehind : between ++ tail = between' ++ tail' := by simpa using htexts
  rw [hbehind] at htail
  obtain rfl := htail.unique htail'
  exact ⟨rfl, List.append_cancel_right hbehind, rfl⟩

end

/-! ## Dropping from the front -/

section

variable {w : Window} {spent : Nat} {behind behind' tail : List Text}

/-- Texts in front do not matter, if no affordable end reaches them. -/
theorem IsTail.of_longer (h : w.IsTail spent behind tail) (hne : behind ≠ [])
    (hsuffix : behind <:+ behind')
    (hreach : ∀ s, s <:+ behind' → s ≠ [] → w.Affords spent s → s <:+ behind) :
    w.IsTail spent behind' tail := by
  cases h with
  | nothing nothingBehind => exact absurd nothingBehind hne
  | longest isSuffix nonempty affordable greatest =>
    exact .longest (isSuffix.trans hsuffix) nonempty affordable
      fun s hs hsne haffords => greatest s (hreach s hs hsne haffords) hsne haffords
  | newest isSuffix noneAffordable =>
    exact .newest (isSuffix.trans hsuffix)
      fun s hs hsne haffords => noneAffordable s (hreach s hs hsne haffords) hsne haffords

theorem isTail_self (h : w.Affords spent tail) (hne : tail ≠ []) : w.IsTail spent tail tail :=
  .longest List.suffix_rfl hne h fun _ hs _ _ => hs.length_le

/-- One text is its own tail, affordable or not. -/
theorem isTail_singleton (w : Window) (spent : Nat) (t : Text) : w.IsTail spent [t] [t] := by
  by_cases h : w.Affords spent [t]
  · exact isTail_self h (List.cons_ne_nil t [])
  · refine .newest List.suffix_rfl fun s hs hne haffords => h ?_
    rcases List.suffix_cons_iff.mp hs with rfl | hnil
    · exact haffords
    · exact absurd (List.suffix_nil.mp hnil) hne

/-- Dropping stops at the tail, and the size stays that of the texts kept. -/
theorem shed_eq (w : Window) (spent : Nat) {ts : List Text} (hne : ts ≠ []) :
    ∃ tail, w.shed (spent + totalUnits ts) ts = (tail, spent + totalUnits tail) ∧
      w.IsTail spent ts tail := by
  induction ts with
  | nil => exact absurd rfl hne
  | cons t ts ih =>
    cases ts with
    | nil => exact ⟨[t], rfl, isTail_singleton w spent t⟩
    | cons u rest =>
      rw [shed]
      split_ifs with hdrop
      · obtain ⟨tail, htail, hrest⟩ := ih (List.cons_ne_nil u rest)
        have hsize : spent + totalUnits (t :: u :: rest) - units t =
            spent + totalUnits (u :: rest) := by
          rw [totalUnits_cons t]
          omega
        rw [hsize]
        refine ⟨tail, htail, hrest.of_longer (List.cons_ne_nil u rest) (List.suffix_cons t _) ?_⟩
        -- The only end that is lost is all of it, and this one is not affordable.
        intro s hs _ haffords
        rcases List.suffix_cons_iff.mp hs with rfl | hshorter
        · simp only [Bool.or_eq_true, decide_eq_true_eq] at hdrop
          simp only [Affords, List.length_cons] at haffords
          omega
        · exact hshorter
      · refine ⟨t :: u :: rest, rfl, isTail_self ?_ (List.cons_ne_nil t _)⟩
        simp only [Bool.or_eq_true, decide_eq_true_eq, not_or] at hdrop
        simp only [Affords, List.length_cons]
        omega

/-! ## One more text -/

/-- Without its newest text, an end costs no more. -/
theorem Affords.of_concat {s : List Text} {t : Text} (h : w.Affords spent (s ++ [t])) :
    w.Affords spent s := by
  simp only [Affords, List.length_append, List.length_singleton, totalUnits_append] at h ⊢
  omega

/-- An end that is affordable reaches no further than the tail, nor does it with one more text. -/
theorem IsTail.reach (h : w.IsTail spent behind tail) {s : List Text} {t : Text}
    (hs : s <:+ behind ++ [t]) (hne : s ≠ []) (haffords : w.Affords spent s) :
    s <:+ tail ++ [t] := by
  rcases List.suffix_concat_iff.mp hs with rfl | ⟨earlier, rfl, hearlier⟩
  · exact absurd rfl hne
  · refine List.suffix_concat_iff.mpr (.inr ⟨earlier, rfl, ?_⟩)
    by_cases hnil : earlier = []
    · rw [hnil]
      exact List.nil_suffix
    have haffordable : w.Affords spent earlier := haffords.of_concat
    cases h with
    | nothing nothingBehind =>
      rw [nothingBehind] at hearlier
      exact hearlier
    | longest isSuffix _ _ greatest =>
      exact List.suffix_of_suffix_length_le hearlier isSuffix
        (greatest earlier hearlier hnil haffordable)
    | newest _ noneAffordable =>
      exact absurd haffordable (noneAffordable earlier hearlier hnil)

/-- The tail of the tail and one more text is the tail of all texts. -/
theorem IsTail.concat (h : w.IsTail spent behind tail) {t : Text}
    (h' : w.IsTail spent (tail ++ [t]) behind') : w.IsTail spent (behind ++ [t]) behind' := by
  have hsuffix : tail ++ [t] <:+ behind ++ [t] :=
    List.suffix_concat_iff.mpr (.inr ⟨tail, rfl, h.isSuffix⟩)
  exact h'.of_longer (by simp) hsuffix fun s hs hne haffords => h.reach hs hne haffords

variable {texts head : List Text}

/-- A head that is filled stays as it is. -/
theorem IsHead.concat_filled (h : w.IsHead texts head) (hne : head ≠ []) (hfills : w.Fills head)
    (t : Text) : w.IsHead (texts ++ [t]) head := by
  cases h with
  | filled isPrefix nonempty fills shortest =>
    refine .filled (isPrefix.trans (List.prefix_append texts [t])) nonempty fills ?_
    intro p hp hpne hpfills
    rcases List.prefix_concat_iff.mp hp with rfl | hshorter
    · rw [List.length_append]
      have hle := isPrefix.length_le
      omega
    · exact shortest p hshorter hpne hpfills
  | unfilled neverFilled => exact absurd hfills (neverFilled texts List.prefix_rfl hne)

/-- A head that is not filled takes the next text. -/
theorem isHead_concat_unfilled (h : ∀ p, p <+: texts → p ≠ [] → ¬ w.Fills p) (t : Text) :
    w.IsHead (texts ++ [t]) (texts ++ [t]) := by
  have hall : ∀ p, p <+: texts ++ [t] → p ≠ [] → w.Fills p → p = texts ++ [t] := by
    intro p hp hne hfills
    rcases List.prefix_concat_iff.mp hp with heq | hshorter
    · exact heq
    · exact absurd hfills (h p hshorter hne)
  by_cases hfills : w.Fills (texts ++ [t])
  · refine .filled List.prefix_rfl (by simp) hfills fun p hp hne hpfills => ?_
    rw [hall p hp hne hpfills]
  · refine .unfilled fun p hp hne hpfills => hfills ?_
    rwa [← hall p hp hne hpfills]

end

end Window

/-! ## Transcripts -/

namespace Transcript

/-- The transcript of texts that are pushed one after the other. -/
def ofTexts (w : Window) (texts : List Text) : Transcript := texts.foldl push { window := w }

/-- What holds of a transcript into which these texts were pushed. -/
structure FilledWith (x : Transcript) (texts : List Text) : Prop where
  /-- Head and tail are those of the texts, and what lies between was counted. -/
  parts : ∃ between, texts = x.head ++ between ++ x.tail ∧ between.length = x.elided ∧
    x.window.Divides x.head between x.tail
  size_eq : x.size = totalUnits x.head + totalUnits x.tail
  /-- The head was closed by the text that filled it. -/
  closed_iff : x.closed = true ↔ x.head ≠ [] ∧ x.window.Fills x.head

section

variable {x : Transcript} {texts : List Text}

theorem push_of_open (h : x.closed = false) (t : Text) :
    x.push t =
      { x with
        head := x.head ++ [t]
        size := x.size + units t
        closed :=
          x.window.budget < x.size + units t || x.window.head ≤ (x.head ++ [t]).length } := by
  simp [push, h]

theorem push_of_closed (h : x.closed = true) {t : Text} {tail : List Text} {size : Nat}
    (hshed : x.window.shed (x.size + units t) (x.tail ++ [t]) = (tail, size)) :
    x.push t =
      { x with tail, size, elided := x.elided + (x.tail.length + 1 - tail.length) } := by
  simp [push, h, hshed]

/-- While the head is open, it holds all texts, and no beginning fills it. -/
theorem FilledWith.of_open (h : x.FilledWith texts) (hopen : x.closed = false) :
    x.head = texts ∧ x.tail = [] ∧ x.elided = 0 ∧
      ∀ p, p <+: texts → p ≠ [] → ¬ x.window.Fills p := by
  obtain ⟨between, htexts, helided, hhead, -⟩ := h.parts
  rw [← htexts] at hhead
  have hnotFilled : ¬ (x.head ≠ [] ∧ x.window.Fills x.head) := by
    rw [← h.closed_iff, hopen]
    exact Bool.false_ne_true
  generalize hx : x.head = head at hhead
  rw [hx] at htexts hnotFilled
  cases hhead with
  | filled _ nonempty fills _ => exact absurd ⟨nonempty, fills⟩ hnotFilled
  | unfilled neverFilled =>
    rw [List.append_assoc, List.self_eq_append_right, List.append_eq_nil_iff] at htexts
    obtain ⟨rfl, htail⟩ := htexts
    exact ⟨rfl, htail, helided.symm, neverFilled⟩

theorem filledWith_push_open (h : x.FilledWith texts) (hopen : x.closed = false) (t : Text) :
    (x.push t).FilledWith (texts ++ [t]) := by
  obtain ⟨hhead, htail, helided, hnever⟩ := h.of_open hopen
  have hsize : x.size + units t = totalUnits (texts ++ [t]) := by
    simp [h.size_eq, hhead, htail]
  rw [push_of_open hopen, hhead, hsize]
  refine ⟨⟨[], ?_, ?_, ?_, ?_⟩, ?_, ?_⟩
  · simp [htail]
  · simp [helided]
  · simpa [htail] using Window.isHead_concat_unfilled hnever t
  · rw [htail]
    exact .nothing rfl
  · simp [htail]
  · simp [Window.Fills, or_comm]

/-- What is dropped for one more text is a beginning of the tail with this text behind it. -/
theorem FilledWith.exists_shed (h : x.FilledWith texts) (t : Text) :
    ∃ dropped tail, dropped ++ tail = x.tail ++ [t] ∧
      x.window.shed (x.size + units t) (x.tail ++ [t]) =
        (tail, totalUnits x.head + totalUnits tail) ∧
      x.window.IsTail (totalUnits x.head) (x.tail ++ [t]) tail := by
  have hsize : x.size + units t = totalUnits x.head + totalUnits (x.tail ++ [t]) := by
    simp [h.size_eq, Nat.add_assoc]
  obtain ⟨tail, hshed, hmade⟩ := x.window.shed_eq (totalUnits x.head)
    (List.append_ne_nil_of_right_ne_nil x.tail (List.cons_ne_nil t []))
  obtain ⟨dropped, hdropped⟩ := hmade.isSuffix
  rw [← hsize] at hshed
  exact ⟨dropped, tail, hdropped, hshed, hmade⟩

theorem filledWith_push_closed (h : x.FilledWith texts) (hclosed : x.closed = true) (t : Text) :
    (x.push t).FilledWith (texts ++ [t]) := by
  obtain ⟨between, htexts, helided, hhead, htail⟩ := h.parts
  obtain ⟨hnonempty, hfills⟩ := h.closed_iff.mp hclosed
  obtain ⟨dropped, tail, hdropped, hshed, hmade⟩ := h.exists_shed t
  have hcount : dropped.length + tail.length = x.tail.length + 1 := by
    simpa using congrArg List.length hdropped
  rw [push_of_closed hclosed hshed]
  refine ⟨⟨between ++ dropped, ?_, ?_, ?_, ?_⟩, rfl, h.closed_iff⟩
  · rw [htexts]
    simp only [List.append_assoc, hdropped]
  · rw [List.length_append]
    dsimp only
    omega
  · have hhead' := hhead.concat_filled hnonempty hfills t
    simpa only [List.append_assoc, hdropped] using hhead'
  · have htail' := htail.concat hmade
    simpa only [List.append_assoc, hdropped] using htail'

theorem filledWith_push (h : x.FilledWith texts) (t : Text) :
    (x.push t).FilledWith (texts ++ [t]) := by
  cases hclosed : x.closed with
  | false => exact filledWith_push_open h hclosed t
  | true => exact filledWith_push_closed h hclosed t

theorem window_push (x : Transcript) (t : Text) : (x.push t).window = x.window := by
  rw [push]
  split_ifs <;> rfl

end

/-! ## All texts -/

theorem ofTexts_concat (w : Window) (texts : List Text) (t : Text) :
    ofTexts w (texts ++ [t]) = (ofTexts w texts).push t := by
  simp [ofTexts]

theorem filledWith_ofTexts (w : Window) (texts : List Text) :
    (ofTexts w texts).FilledWith texts ∧ (ofTexts w texts).window = w := by
  induction texts using List.reverseRecOn with
  | nil =>
    have hhead : w.IsHead [] [] := .unfilled fun p hp hne => absurd (List.prefix_nil.mp hp) hne
    exact ⟨⟨⟨[], rfl, rfl, hhead, .nothing rfl⟩, rfl, by simp [ofTexts]⟩, rfl⟩
  | append_singleton texts t ih =>
    obtain ⟨hfilled, hwindow⟩ := ih
    rw [ofTexts_concat]
    exact ⟨filledWith_push hfilled t, (window_push _ t).trans hwindow⟩

theorem divides_ofTexts (w : Window) (texts : List Text) :
    ∃ between, texts = (ofTexts w texts).head ++ between ++ (ofTexts w texts).tail ∧
      between.length = (ofTexts w texts).elided ∧
      w.Divides (ofTexts w texts).head between (ofTexts w texts).tail := by
  obtain ⟨hfilled, hwindow⟩ := filledWith_ofTexts w texts
  simpa only [hwindow] using hfilled.parts

/-! ## What is left of the texts -/

theorem total_ofTexts (w : Window) (texts : List Text) :
    (ofTexts w texts).total = texts.length := by
  obtain ⟨between, htexts, helided, -⟩ := divides_ofTexts w texts
  have hlength := congrArg List.length htexts
  simp only [List.length_append] at hlength
  rw [total]
  omega

theorem last?_ofTexts (w : Window) (texts : List Text) :
    (ofTexts w texts).last? = texts.getLast? := by
  obtain ⟨between, htexts, -, -, htail⟩ := divides_ofTexts w texts
  rw [last?, congrArg List.getLast? htexts]
  generalize (ofTexts w texts).head = head at htail ⊢
  generalize (ofTexts w texts).tail = tail at htail ⊢
  -- Only without texts behind the head is the tail empty.
  cases htail with
  | nothing nothingBehind =>
    rw [List.append_nil] at nothingBehind
    simp [nothingBehind]
  | longest _ nonempty _ _ =>
    obtain ⟨earlier, t, rfl⟩ := (List.eq_nil_or_concat tail).resolve_left nonempty
    simp
  | newest _ _ => simp

/-- The result is the last text behind the first, however many were elided. -/
theorem result?_ofTexts (w : Window) (texts : List Text) :
    (ofTexts w texts).result? = texts.tail.getLast? := by
  rw [result?, total_ofTexts, last?_ofTexts]
  match texts with
  | [] => rfl
  | [t] => rfl
  | t :: u :: rest =>
    have htwo : 1 < (t :: u :: rest).length := by
      simp only [List.length_cons]
      omega
    rw [if_pos htwo, List.getLast?_cons_cons, List.tail_cons]

end Transcript

/-- **A transcript is a window over all texts.** Whatever the window is, texts that were pushed one
    after the other are shown as this head and this tail, with this number of texts elided, if and
    only if they are made of the head, of so many texts between, and of the tail, such that

    * the head is the shortest non-empty beginning of the texts that is as long as the window allows
      or larger than the budget, or all texts if there is no such beginning;
    * the tail is empty if there are no texts behind the head; otherwise it is the longest non-empty
      end of these texts that is not longer than the window allows and, together with the head, not
      larger than the budget, or the newest text alone if there is no such end. -/
theorem parts_ofTexts_iff {w : Window} {texts head tail : List Text} {elided : Nat} :
    ((Transcript.ofTexts w texts).head = head ∧ (Transcript.ofTexts w texts).tail = tail ∧
        (Transcript.ofTexts w texts).elided = elided) ↔
      ∃ between, texts = head ++ between ++ tail ∧ between.length = elided ∧
        w.Divides head between tail := by
  obtain ⟨between, htexts, helided, hdivides⟩ := Transcript.divides_ofTexts w texts
  constructor
  · rintro ⟨rfl, rfl, rfl⟩
    exact ⟨between, htexts, helided, hdivides⟩
  · rintro ⟨between', htexts', rfl, hdivides'⟩
    obtain ⟨hhead, hbetween, htail⟩ := hdivides.unique hdivides' (htexts.symm.trans htexts')
    exact ⟨hhead, htail, by rw [← helided, hbetween]⟩

/-- The second text closes the head, and nothing is left of the budget for a tail. -/
example : Transcript.ofTexts { budget := 5 } ["aaa".toList, "bbb".toList, "c".toList, "d".toList] =
    { window := { budget := 5 }, head := ["aaa".toList, "bbb".toList], tail := ["d".toList],
      elided := 1, size := 7, closed := true } := rfl

end NormalAlgorithm
