import NormalAlgorithm.Display.Statistics
import NormalAlgorithm.Display.Verdict
import NormalAlgorithm.Proofs.Display.Numbered
import NormalAlgorithm.Proofs.Display.Unstyled

/-!
# Styles only decorate

Whatever is displayed, in colour it says what it says in plain output. The wording and the numbers
are free of the escape character, so a style around them can be taken off and nothing else. A text
that is shown may contain anything. It is the last thing in its style and on its line, and neither
the end of a style nor the end of a line can complete a control sequence; so what is taken out of
the text is the same in colour and in plain output. If the text is free of the escape character,
then so is the plain output, and nothing is taken out of that.

Results:
* `Shows.append`, `Shows.paint`, `Shows.line`: what texts say that are made of others.
* `shows_statistics`: statistics.
* `withoutStyles_fault`, `withoutStyles_verdict`, `Transcript.withoutStyles_render`: faults,
  verdicts and transcripts, with a palette or without.
* `escape_notMem_statistics`, `escape_notMem_fault`, `escape_notMem_verdict`,
  `Transcript.escape_notMem_render`: where the plain output is free of the escape character.
-/

namespace NormalAlgorithm

/-! ## What is said -/

/-- A text says this, whatever stands behind it. -/
structure Shows (s words : Text) : Prop where
  selfContained : SelfContained s
  words_eq : withoutStyles s = words

section

variable {s t words words' : Text}

theorem shows_of_notMem (h : '\x1b' ∉ s) : Shows s s :=
  ⟨selfContained_of_notMem h, withoutStyles_of_notMem h⟩

theorem Shows.append (hs : Shows s words) (ht : Shows t words') :
    Shows (s ++ t) (words ++ words') :=
  ⟨hs.selfContained.append ht.selfContained, by rw [hs.selfContained, hs.words_eq, ht.words_eq]⟩

theorem Shows.paint (h : Shows s words) (palette : Palette) (style : Style) :
    Shows (palette.paint style s) words :=
  ⟨h.selfContained.paint palette style, (withoutStyles_paint palette style s).trans h.words_eq⟩

theorem Shows.line (h : Shows s words) : Shows (line s) (line words) :=
  ⟨selfContained_line s, by rw [withoutStyles_line, h.words_eq]⟩

theorem escape_notMem_line (h : '\x1b' ∉ s) : '\x1b' ∉ line s := by
  simpa [line] using h

end

/-! ## Numbers -/

theorem escape_notMem_decimal (n : Nat) : '\x1b' ∉ decimal n := by
  intro hmem
  have hdigit := Nat.isDigit_of_mem_toDigits (by decide) (by decide) hmem
  cases hdigit

theorem escape_notMem_fractionDigits (places part : Nat) :
    '\x1b' ∉ fractionDigits places part := by
  intro hmem
  have hpadded : '\x1b' ∈ (decimal part).leftpad places '0' :=
    List.mem_reverse.mp ((List.dropWhile_sublist _).subset (List.mem_reverse.mp hmem))
  rcases List.mem_append.mp hpadded with hzero | hdecimal
  · cases List.eq_of_mem_replicate hzero
  · exact escape_notMem_decimal part hdecimal

theorem escape_notMem_inUnits {name : Text} (hname : '\x1b' ∉ name) (places nanoseconds : Nat) :
    '\x1b' ∉ inUnits places name nanoseconds := by
  unfold inUnits
  dsimp only
  split_ifs <;> simp [escape_notMem_decimal, escape_notMem_fractionDigits, hname]

theorem escape_notMem_duration (nanoseconds : Nat) : '\x1b' ∉ duration nanoseconds := by
  unfold duration
  split_ifs <;> exact escape_notMem_inUnits (by decide) _ _

/-! ## Statistics -/

theorem shows_statistics (palette : Palette) (counts : Counts) (time : Timing) :
    Shows (statistics palette counts time) (statistics .plain counts time) := by
  have figure (n : Nat) : Shows (palette.paint .cyan (decimal n)) (decimal n) :=
    (shows_of_notMem (escape_notMem_decimal n)).paint palette .cyan
  have lasting (style : Style) (n : Nat) : Shows (palette.paint style (duration n)) (duration n) :=
    (shows_of_notMem (escape_notMem_duration n)).paint palette style
  have gap : Shows figureGap figureGap := shows_of_notMem (by decide)
  have rule {s : Text} (h : '\x1b' ∉ s) : Shows (line (palette.paint .gray s)) (line s) :=
    ((shows_of_notMem h).paint palette .gray).line
  have label {s : Text} (h : '\x1b' ∉ s) : Shows s s := shows_of_notMem h
  unfold statistics
  refine .append (.append (.append (rule (by decide)) (.line ?counts)) (.line ?times))
    (rule (by decide))
  case counts =>
    exact (((((((((label (by decide)).append (figure _)).append gap).append
      (label (by decide))).append (figure _)).append (label (by decide))).append
        (figure _)).append gap).append (label (by decide))).append (figure _)
  case times =>
    exact ((((((((((label (by decide)).append (lasting _ _)).append gap).append
      (label (by decide))).append (lasting _ _)).append gap).append (label (by decide))).append
        (lasting _ _)).append gap).append (label (by decide))).append (lasting _ _)

theorem escape_notMem_statistics (counts : Counts) (time : Timing) :
    '\x1b' ∉ statistics .plain counts time := by
  simp [statistics, line, figureGap, escape_notMem_decimal, escape_notMem_duration]

/-! ## Faults and verdicts -/

theorem escape_notMem_label (kind : Fault.Kind) : '\x1b' ∉ kind.label := by
  cases kind <;> decide

theorem withoutStyles_fault (palette : Palette) (f : Fault) :
    withoutStyles (f.render palette) = line (f.kind.label ++ [' '] ++ withoutStyles f.message) := by
  have hfront : Shows (palette.paint .bold (palette.paint .red f.kind.label) ++ [' '])
      (f.kind.label ++ [' ']) :=
    (((shows_of_notMem (escape_notMem_label _)).paint palette .red).paint palette .bold).append
      (shows_of_notMem (by decide))
  rw [Fault.render, withoutStyles_line, hfront.selfContained, hfront.words_eq]

theorem withoutStyles_verdict (palette : Palette) (v : Verdict) :
    withoutStyles (v.render palette) = withoutStyles (v.render .plain) := by
  have hwording {s : Text} : withoutStyles (line (palette.paint .yellow s)) =
      withoutStyles (line s) := by
    rw [withoutStyles_line, withoutStyles_paint, withoutStyles_line]
  cases v with
  | text t => rfl
  | noOperation | empty | tooLong => exact hwording

theorem escape_notMem_fault {f : Fault} (h : '\x1b' ∉ f.message) : '\x1b' ∉ f.render .plain :=
  escape_notMem_line (by simp [escape_notMem_label, h])

theorem escape_notMem_verdict {v : Verdict} (h : ∀ t, v = .text t → '\x1b' ∉ t) :
    '\x1b' ∉ v.render .plain := by
  cases v with
  | text t => exact escape_notMem_line (h t rfl)
  | noOperation | empty | tooLong => decide

/-! ## Transcripts -/

namespace Transcript

theorem selfContained_entry (palette : Palette) (width : Nat) (e : Entry) :
    SelfContained (e.render palette width) := by
  cases e <;> exact selfContained_line _

/-- What stands in front of a text on its line. -/
theorem escape_notMem_place (number width : Nat) :
    '\x1b' ∉ (decimal number).leftpad width ' ' ++ ['.'] := by
  simp [List.leftpad, escape_notMem_decimal]

theorem withoutStyles_entry (palette : Palette) (width : Nat) (e : Entry) :
    withoutStyles (e.render palette width) = withoutStyles (e.render .plain width) := by
  cases e with
  | text number t =>
    have hfront (p : Palette) :
        Shows (p.paint .gray ((decimal number).leftpad width ' ' ++ ['.']) ++ [' '])
          ((decimal number).leftpad width ' ' ++ ['.'] ++ [' ']) :=
      ((shows_of_notMem (escape_notMem_place number width)).paint p .gray).append
        (shows_of_notMem (by decide))
    have hentry (p : Palette) : withoutStyles ((Entry.text number t).render p width) =
        line ((decimal number).leftpad width ' ' ++ ['.'] ++ [' '] ++ withoutStyles t) := by
      rw [Entry.render, withoutStyles_line, (hfront p).selfContained, (hfront p).words_eq,
        withoutStyles_paint]
    rw [hentry, hentry]
  | gap count =>
    rw [Entry.render, Entry.render, withoutStyles_line, withoutStyles_line, withoutStyles_paint,
      withoutStyles_paint]

theorem selfContained_render (palette : Palette) (x : Transcript) :
    SelfContained (x.render palette) :=
  selfContained_flatMap fun e _ => selfContained_entry palette _ e

theorem withoutStyles_render (palette : Palette) (x : Transcript) :
    withoutStyles (x.render palette) = withoutStyles (x.render .plain) := by
  have hlines (p : Palette) :=
    withoutStyles_flatMap fun e (_ : e ∈ x.entries) =>
      selfContained_entry p (decimal x.total).length e
  rw [render, render, hlines, hlines]
  exact List.flatMap_congr fun e _ => withoutStyles_entry palette _ e

theorem shows_render (palette : Palette) (x : Transcript) :
    Shows (x.render palette) (withoutStyles (x.render .plain)) :=
  ⟨selfContained_render palette x, withoutStyles_render palette x⟩

theorem escape_notMem_entry {e : Entry} (h : ∀ n t, e = .text n t → '\x1b' ∉ t) (width : Nat) :
    '\x1b' ∉ e.render .plain width := by
  cases e with
  | text n t =>
    refine escape_notMem_line ?_
    have hplace := escape_notMem_place n width
    simp only [paint_plain, List.mem_append, not_or] at hplace ⊢
    exact ⟨⟨hplace, by decide⟩, h n t rfl⟩
  | gap count => exact escape_notMem_line (by simp [escape_notMem_decimal])

/-- What is shown of texts that were pushed are some of these texts. -/
theorem mem_of_mem_entries {w : Window} {texts : List Text} {n : Nat} {t : Text}
    (h : .text n t ∈ (ofTexts w texts).entries) : t ∈ texts := by
  obtain ⟨between, htexts, helided, -⟩ := divides_ofTexts w texts
  have hlength := congrArg List.length htexts
  simp only [List.length_append] at hlength
  rw [entries_of_parts htexts helided] at h
  exact List.mem_of_getElem? (getElem?_of_mem_linesFor (by omega) h).2

theorem escape_notMem_render {w : Window} {texts : List Text} (h : ∀ t ∈ texts, '\x1b' ∉ t) :
    '\x1b' ∉ (ofTexts w texts).render .plain := by
  rw [render, List.mem_flatMap]
  rintro ⟨e, he, hmem⟩
  exact escape_notMem_entry (fun n t heq => h t (mem_of_mem_entries (heq ▸ he))) _ hmem

end Transcript

end NormalAlgorithm
