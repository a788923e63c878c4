import NormalAlgorithm.Fault
import NormalAlgorithm.Text.Pieces
import Mathlib.Data.List.Forall2

/-!
# Steps that can fail

Compiling and replacing are sequences of steps, each of which gives a value or a fault. A sequence
gives a value if all its steps do, and otherwise the fault of one of them.

Results:
* `bind_eq_ok_iff`, `bind_eq_error_iff`: two steps, one after the other.
* `mapM_eq_ok_iff_forall₂`, `mapM_eq_error_iff`: the same step for each entry of a list gives the
  values of all entries, or the fault of the first entry that has one.
* `mem_of_mapM_eq_ok`, `exists_eq_ok_of_mapM`, `length_of_mapM_eq_ok`, `mapM_eq_error`: where each
  value comes from, that each entry has one, how many there are, and where a fault comes from.
* `mapM_map_eq_ok`: what was written entry by entry is read back.
* `Pieces.mapM_eq_ok_iff`, `Pieces.toList_mapM`: the same step for each piece of a text.
* `foldlM_eq_error_iff`, `foldlM_eq_error`, `foldlM_concat_eq_ok_iff`: one step for each entry of a
  list, each from where the last one has led.
-/

namespace NormalAlgorithm

section

variable {ε α β : Type}

theorem bind_eq_ok_iff {x : Except ε α} {f : α → Except ε β} {b : β} :
    x >>= f = .ok b ↔ ∃ a, x = .ok a ∧ f a = .ok b := by
  cases x <;> simp [bind, Except.bind]

theorem bind_eq_error_iff {x : Except ε α} {f : α → Except ε β} {e : ε} :
    x >>= f = .error e ↔ x = .error e ∨ ∃ a, x = .ok a ∧ f a = .error e := by
  cases x <;> simp [bind, Except.bind]

/-- What was written entry by entry is read back entry by entry. -/
theorem mapM_map_eq_ok {f : α → β} {g : β → Except ε α} (h : ∀ x, g (f x) = .ok x)
    (xs : List α) : (xs.map f).mapM g = .ok xs := by
  induction xs with
  | nil => rfl
  | cons x xs ih =>
    rw [List.map_cons, List.mapM_cons, h, ih]
    rfl

theorem mapM_eq_ok_iff_forall₂ {f : α → Except ε β} {xs : List α} {ys : List β} :
    xs.mapM f = .ok ys ↔ List.Forall₂ (fun x y => f x = .ok y) xs ys := by
  induction xs generalizing ys with
  | nil => simp [pure, Except.pure, eq_comm]
  | cons x xs ih =>
    simp only [List.mapM_cons, bind_eq_ok_iff, ih, List.forall₂_cons_left_iff]
    constructor
    · rintro ⟨y, hx, ys', hxs, hpure⟩
      cases hpure
      exact ⟨y, ys', hx, hxs, rfl⟩
    · rintro ⟨y, ys', hx, hxs, rfl⟩
      exact ⟨y, hx, ys', hxs, rfl⟩

theorem mem_of_mapM_eq_ok {f : α → Except ε β} {xs : List α} {ys : List β} {y : β}
    (h : xs.mapM f = .ok ys) (hy : y ∈ ys) : ∃ x ∈ xs, f x = .ok y := by
  induction mapM_eq_ok_iff_forall₂.mp h with
  | nil => cases hy
  | @cons x y' xs ys hx hrest ih =>
    rcases List.mem_cons.mp hy with rfl | hy
    · exact ⟨x, List.mem_cons_self, hx⟩
    · obtain ⟨x', hmem, hx'⟩ := ih (mapM_eq_ok_iff_forall₂.mpr hrest) hy
      exact ⟨x', List.mem_cons_of_mem x hmem, hx'⟩

theorem exists_eq_ok_of_mapM {f : α → Except ε β} {xs : List α} {ys : List β} {x : α}
    (h : xs.mapM f = .ok ys) (hx : x ∈ xs) : ∃ y, f x = .ok y := by
  induction mapM_eq_ok_iff_forall₂.mp h with
  | nil => cases hx
  | @cons x' y xs ys hx' hrest ih =>
    rcases List.mem_cons.mp hx with rfl | hx
    · exact ⟨y, hx'⟩
    · exact ih (mapM_eq_ok_iff_forall₂.mpr hrest) hx

theorem length_of_mapM_eq_ok {f : α → Except ε β} {xs : List α} {ys : List β}
    (h : xs.mapM f = .ok ys) : ys.length = xs.length :=
  (mapM_eq_ok_iff_forall₂.mp h).length_eq.symm

/-- The fault is that of the first entry that has one. -/
theorem mapM_eq_error_iff {f : α → Except ε β} {xs : List α} {e : ε} :
    xs.mapM f = .error e ↔ ∃ before x after, xs = before ++ x :: after ∧
      (∀ x' ∈ before, ∃ y, f x' = .ok y) ∧ f x = .error e := by
  constructor
  · intro h
    induction xs with
    | nil => cases h
    | cons x xs ih =>
      rw [List.mapM_cons, bind_eq_error_iff] at h
      rcases h with hx | ⟨y, hx, hrest⟩
      · exact ⟨[], x, xs, rfl, by simp, hx⟩
      rcases bind_eq_error_iff.mp hrest with hxs | ⟨ys, -, hpure⟩
      · obtain ⟨before, x', after, rfl, hbefore, herror⟩ := ih hxs
        exact ⟨x :: before, x', after, rfl, List.forall_mem_cons.mpr ⟨⟨y, hx⟩, hbefore⟩, herror⟩
      · cases hpure
  · rintro ⟨before, x, after, rfl, hbefore, herror⟩
    induction before with
    | nil =>
      rw [List.nil_append, List.mapM_cons]
      exact bind_eq_error_iff.mpr (.inl herror)
    | cons x' before ih =>
      obtain ⟨⟨y, hx'⟩, hrest⟩ := List.forall_mem_cons.mp hbefore
      rw [List.cons_append, List.mapM_cons]
      exact bind_eq_error_iff.mpr (.inr ⟨y, hx', bind_eq_error_iff.mpr (.inl (ih hrest))⟩)

theorem mapM_eq_error {f : α → Except ε β} {xs : List α} {e : ε} (h : xs.mapM f = .error e) :
    ∃ x ∈ xs, f x = .error e := by
  obtain ⟨before, x, after, rfl, -, herror⟩ := mapM_eq_error_iff.mp h
  exact ⟨x, List.mem_append_right before List.mem_cons_self, herror⟩

/-- The pieces of a text, from the first to the last. -/
theorem Pieces.mapM_eq_ok_iff {f : Text → Except ε Text} {p q : Pieces} :
    p.mapM f = .ok q ↔ List.Forall₂ (fun t u => f t = .ok u) p.toList q.toList := by
  obtain ⟨first, rest⟩ := q
  rw [toList, toList, List.forall₂_cons, ← mapM_eq_ok_iff_forall₂, mapM]
  cases f p.first with
  | error e => simp [bind, Except.bind]
  | ok t => cases p.rest.mapM f <;> simp [bind, Except.bind, pure, Except.pure]

theorem Pieces.toList_mapM (f : Text → Except ε Text) (p : Pieces) :
    (p.mapM f).map toList = p.toList.mapM f := by
  rw [mapM, toList, List.mapM_cons]
  cases f p.first with
  | error e => rfl
  | ok first => cases p.rest.mapM f <;> rfl

/-- The fault is that of the first entry that has one, from where the entries before it have led. -/
theorem foldlM_eq_error_iff {f : β → α → Except ε β} {xs : List α} {b : β} {e : ε} :
    xs.foldlM f b = .error e ↔ ∃ before x after b', xs = before ++ x :: after ∧
      before.foldlM f b = .ok b' ∧ f b' x = .error e := by
  constructor
  · intro h
    induction xs generalizing b with
    | nil => cases h
    | cons x xs ih =>
      rw [List.foldlM_cons, bind_eq_error_iff] at h
      rcases h with hx | ⟨b', hx, hrest⟩
      · exact ⟨[], x, xs, b, rfl, rfl, hx⟩
      · obtain ⟨before, x', after, b'', rfl, hbefore, herror⟩ := ih hrest
        refine ⟨x :: before, x', after, b'', rfl, ?_, herror⟩
        rw [List.foldlM_cons]
        exact bind_eq_ok_iff.mpr ⟨b', hx, hbefore⟩
  · rintro ⟨before, x, after, b', rfl, hbefore, herror⟩
    rw [List.foldlM_append, bind_eq_error_iff]
    refine .inr ⟨b', hbefore, ?_⟩
    rw [List.foldlM_cons]
    exact bind_eq_error_iff.mpr (.inl herror)

theorem foldlM_concat_eq_ok_iff {f : β → α → Except ε β} {xs : List α} {x : α} {b b' : β} :
    (xs ++ [x]).foldlM f b = .ok b' ↔ ∃ b'', xs.foldlM f b = .ok b'' ∧ f b'' x = .ok b' := by
  rw [List.foldlM_append, bind_eq_ok_iff]
  simp only [List.foldlM_cons, List.foldlM_nil, bind_pure]

theorem foldlM_eq_error {f : β → α → Except ε β} {xs : List α} {b : β} {e : ε}
    (h : xs.foldlM f b = .error e) : ∃ b', ∃ x ∈ xs, f b' x = .error e := by
  obtain ⟨before, x, after, b', rfl, -, herror⟩ := foldlM_eq_error_iff.mp h
  exact ⟨b', x, List.mem_append_right before List.mem_cons_self, herror⟩

end

end NormalAlgorithm
