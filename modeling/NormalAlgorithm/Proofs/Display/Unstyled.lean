import NormalAlgorithm.Display.Palette
import Mathlib.Data.List.TakeWhile

/-!
# Text without its styles

A terminal does not show control sequences, and a text without them is what is read there. They are
taken out from left to right. This is not done piece by piece: the beginning of a sequence could
stand at the end of one piece, and the rest of it at the front of the next. But no sequence reaches
past the end of a line, nor past another escape character; so lines can be taken one by one, and
what stands between the sequences of a style keeps to itself.

Results:
* `behindSequence?_eq_some_iff`: where a control sequence stands.
* `withoutStyles_append`: texts between which no sequence can stand are taken one by one.
* `withoutStyles_of_notMem`: a text without the escape character is left as it is.
* `withoutStyles_paint`, `withoutStyles_line`: a style is taken off, and a line stays a line.
* `SelfContained.append`, `selfContained_line`, `SelfContained.paint`: texts that do not change what
  stands behind them.
-/

namespace NormalAlgorithm

/-! ## Control sequences -/

/-- What stands behind the control sequence at the front of a text, if there is one: an escape
    character and a bracket, one or more digits, and the letter `m`. -/
def behindSequence? (t : Text) : Option Text :=
  (stripStart? ['\x1b', '['] t).bind fun t =>
    if t.head?.any Char.isDigit then stripStart? ['m'] (t.dropWhile Char.isDigit) else none

section

variable {c : Char} {s t rest number : Text}

theorem behindSequence?_controlSequence (hne : number ≠ [])
    (hdigits : ∀ c ∈ number, c.isDigit = true) (rest : Text) :
    behindSequence? (controlSequence number ++ rest) = some rest := by
  have htext : controlSequence number ++ rest = ['\x1b', '['] ++ (number ++ 'm' :: rest) := by
    simp [controlSequence]
  have hhead : (number ++ 'm' :: rest).head?.any Char.isDigit = true := by
    obtain ⟨d, more, rfl⟩ := List.exists_cons_of_ne_nil hne
    exact hdigits d List.mem_cons_self
  have hdrop : (number ++ 'm' :: rest).dropWhile Char.isDigit = 'm' :: rest := by
    rw [List.dropWhile_append_of_pos hdigits]
    rfl
  rw [behindSequence?, htext, stripStart?_append, Option.bind_some, if_pos hhead, hdrop]
  exact stripStart?_append ['m'] rest

theorem behindSequence?_eq_some_iff :
    behindSequence? t = some rest ↔
      ∃ number, number ≠ [] ∧ (∀ c ∈ number, c.isDigit = true) ∧
        t = controlSequence number ++ rest := by
  constructor
  · intro h
    obtain ⟨u, hu, h⟩ := Option.bind_eq_some_iff.mp h
    split at h
    · rename_i hhead
      have hdrop := stripStart?_eq_some_iff.mp h
      refine ⟨u.takeWhile Char.isDigit, ?_, fun c hc => List.mem_takeWhile_imp hc, ?_⟩
      · intro hnil
        cases u with
        | nil => cases hhead
        | cons d u =>
          have hd : d.isDigit = true := hhead
          rw [List.takeWhile_cons_of_pos hd] at hnil
          cases hnil
      · have hu' : u = u.takeWhile Char.isDigit ++ ['m'] ++ rest := by
          rw [List.append_assoc, ← hdrop, List.takeWhile_append_dropWhile]
        rw [stripStart?_eq_some_iff.mp hu, controlSequence, List.append_assoc, List.append_assoc,
          ← List.append_assoc _ ['m'], ← hu']
    · cases h
  · rintro ⟨number, hne, hdigits, rfl⟩
    exact behindSequence?_controlSequence hne hdigits rest

theorem behindSequence?_of_ne (h : c ≠ '\x1b') : behindSequence? (c :: t) = none := by
  rw [behindSequence?, stripStart?, if_neg (Ne.symm h), Option.bind_none]

theorem length_lt_of_behindSequence? (h : behindSequence? t = some rest) :
    rest.length < t.length := by
  obtain ⟨number, -, -, rfl⟩ := behindSequence?_eq_some_iff.mp h
  simp only [controlSequence, List.length_append, List.length_cons]
  omega

/-! ## Taking them out -/

/-- A text without its control sequences. -/
def withoutStyles : Text → Text
  | [] => []
  | c :: t =>
    match h : behindSequence? (c :: t) with
    | some rest =>
      have := length_lt_of_behindSequence? h
      withoutStyles rest
    | none => c :: withoutStyles t
termination_by t => t.length
decreasing_by
  · exact this
  · exact Nat.lt_succ_self t.length

@[simp] theorem withoutStyles_nil : withoutStyles [] = [] := by
  rw [withoutStyles]

theorem withoutStyles_of_sequence (h : behindSequence? t = some rest) :
    withoutStyles t = withoutStyles rest := by
  cases t with
  | nil => cases h
  | cons c t =>
    rw [withoutStyles]
    split <;> simp_all

theorem withoutStyles_cons (h : behindSequence? (c :: t) = none) :
    withoutStyles (c :: t) = c :: withoutStyles t := by
  rw [withoutStyles]
  split <;> simp_all

/-! ## Texts that keep apart -/

/-- Whether a character can stand in a control sequence behind its beginning. -/
def continues (c : Char) : Bool := c = '[' || c.isDigit || c = 'm'

theorem continues_of_mem_tail (hdigits : ∀ c ∈ number, c.isDigit = true)
    (h : c ∈ (controlSequence number).tail) : continues c = true := by
  have hc : c = '[' ∨ c ∈ number ∨ c = 'm' := by simpa [controlSequence] using h
  rcases hc with rfl | hnumber | rfl
  · rfl
  · simp [continues, hdigits c hnumber]
  · rfl

/-- No control sequence that begins in front of such a character reaches it. -/
theorem behindSequence?_append_eq_none (hc : continues c = false) {d : Char}
    (h : behindSequence? (d :: s) = none) : behindSequence? (d :: (s ++ c :: t)) = none := by
  by_contra hsome
  obtain ⟨rest, hrest⟩ := Option.ne_none_iff_exists'.mp hsome
  obtain ⟨number, hne, hdigits, heq⟩ := behindSequence?_eq_some_iff.mp hrest
  have hnot : ∀ more, d :: s ≠ controlSequence number ++ more := by
    intro more hmore
    rw [hmore, behindSequence?_controlSequence hne hdigits] at h
    cases h
  rw [← List.cons_append] at heq
  rcases List.append_eq_append_iff.mp heq with ⟨as, hsequence, has⟩ | ⟨bs, hfront, -⟩
  · cases as with
    | nil => exact hnot [] (by rw [List.append_nil, hsequence, List.append_nil])
    | cons e as =>
      obtain ⟨rfl, -⟩ := List.cons.inj has
      have hmem : c ∈ (controlSequence number).tail := by
        rw [hsequence, List.cons_append, List.tail_cons]
        exact List.mem_append_right _ List.mem_cons_self
      rw [continues_of_mem_tail hdigits hmem] at hc
      cases hc
  · exact hnot bs hfront

/-- Such a character separates what stands in front of it from the rest. -/
theorem withoutStyles_append (hc : continues c = false) (s t : Text) :
    withoutStyles (s ++ c :: t) = withoutStyles s ++ withoutStyles (c :: t) := by
  fun_induction withoutStyles s with
  | case1 => rfl
  | case2 d s rest h _ ih =>
    obtain ⟨number, hne, hdigits, heq⟩ := behindSequence?_eq_some_iff.mp h
    rw [heq, List.append_assoc,
      withoutStyles_of_sequence (behindSequence?_controlSequence hne hdigits _), ih]
  | case3 d s h ih =>
    rw [List.cons_append, withoutStyles_cons (behindSequence?_append_eq_none hc h), ih,
      List.cons_append]

/-- A text that does not change what stands behind it. -/
def SelfContained (s : Text) : Prop :=
  ∀ t, withoutStyles (s ++ t) = withoutStyles s ++ withoutStyles t

theorem withoutStyles_append_of_notMem (h : '\x1b' ∉ s) (t : Text) :
    withoutStyles (s ++ t) = s ++ withoutStyles t := by
  induction s with
  | nil => rfl
  | cons c s ih =>
    rw [List.mem_cons, not_or] at h
    rw [List.cons_append, withoutStyles_cons (behindSequence?_of_ne (Ne.symm h.1)), ih h.2,
      List.cons_append]

/-- A text without the escape character is left as it is. -/
theorem withoutStyles_of_notMem (h : '\x1b' ∉ s) : withoutStyles s = s := by
  simpa using withoutStyles_append_of_notMem h []

theorem selfContained_of_notMem (h : '\x1b' ∉ s) : SelfContained s := by
  intro t
  rw [withoutStyles_append_of_notMem h, withoutStyles_of_notMem h]

theorem SelfContained.append (hs : SelfContained s) (ht : SelfContained t) :
    SelfContained (s ++ t) := by
  intro u
  rw [List.append_assoc, hs, ht, hs, List.append_assoc]

theorem selfContained_flatMap {α : Type} {f : α → Text} {xs : List α}
    (h : ∀ x ∈ xs, SelfContained (f x)) : SelfContained (xs.flatMap f) := by
  induction xs with
  | nil => exact fun t => by simp
  | cons x xs ih =>
    obtain ⟨hx, hxs⟩ := List.forall_mem_cons.mp h
    exact hx.append (ih hxs)

theorem withoutStyles_flatMap {α : Type} {f : α → Text} {xs : List α}
    (h : ∀ x ∈ xs, SelfContained (f x)) :
    withoutStyles (xs.flatMap f) = xs.flatMap fun x => withoutStyles (f x) := by
  induction xs with
  | nil => exact withoutStyles_nil
  | cons x xs ih =>
    obtain ⟨hx, hxs⟩ := List.forall_mem_cons.mp h
    rw [List.flatMap_cons, hx, ih hxs, List.flatMap_cons]

/-! ## Lines and styles -/

theorem withoutStyles_lineFeed (t : Text) :
    withoutStyles ('\n' :: t) = '\n' :: withoutStyles t :=
  withoutStyles_cons (behindSequence?_of_ne (by decide))

theorem withoutStyles_line (t : Text) : withoutStyles (line t) = line (withoutStyles t) := by
  rw [line, withoutStyles_append (by decide), withoutStyles_lineFeed, withoutStyles_nil, line]

theorem selfContained_line (t : Text) : SelfContained (line t) := by
  intro u
  rw [withoutStyles_line, line, List.append_assoc, List.singleton_append,
    withoutStyles_append (by decide), withoutStyles_lineFeed, line, List.append_assoc,
    List.singleton_append]

theorem Style.number_ne_nil (style : Style) : style.number ≠ [] := by
  cases style <;> decide

theorem Style.isDigit_number (style : Style) : ∀ c ∈ style.number, c.isDigit = true := by
  refine List.all_eq_true.mp ?_
  cases style <;> rfl

theorem withoutStyles_controlSequence (hne : number ≠ [])
    (hdigits : ∀ c ∈ number, c.isDigit = true) (t : Text) :
    withoutStyles (controlSequence number ++ t) = withoutStyles t :=
  withoutStyles_of_sequence (behindSequence?_controlSequence hne hdigits t)

/-- The text behind a style is left in peace: its end is a control sequence of its own. -/
theorem withoutStyles_paint_color (style : Style) (s t : Text) :
    withoutStyles (Palette.color.paint style s ++ t) = withoutStyles s ++ withoutStyles t := by
  have hreset : controlSequence ['0'] ++ t = '\x1b' :: ("[0m".toList ++ t) := rfl
  rw [Palette.paint, List.append_assoc, List.append_assoc,
    withoutStyles_controlSequence style.number_ne_nil style.isDigit_number, hreset,
    withoutStyles_append (by decide), ← hreset,
    withoutStyles_controlSequence (List.cons_ne_nil _ _) (List.all_eq_true.mp rfl)]

theorem withoutStyles_paint (palette : Palette) (style : Style) (t : Text) :
    withoutStyles (palette.paint style t) = withoutStyles t := by
  cases palette with
  | plain => rfl
  | color => simpa using withoutStyles_paint_color style t []

theorem SelfContained.paint (h : SelfContained t) (palette : Palette) (style : Style) :
    SelfContained (palette.paint style t) := by
  cases palette with
  | plain => exact h
  | color =>
    intro u
    rw [withoutStyles_paint_color, withoutStyles_paint]

end

end NormalAlgorithm
