/-! # Positions in a text

Lines are ended by the line feed alone; columns count characters. Both start at one. -/

namespace FrancaLint.Source

/-- A **position** before some character of a text. -/
structure Position where
  /-- The line, counted from one. -/
  line : Nat := 1
  /-- The column, counted from one. -/
  column : Nat := 1
  deriving DecidableEq, Repr, Inhabited

namespace Position

/-- The position after one character. -/
def next (pos : Position) (c : Char) : Position :=
  if c = '\n' then ⟨pos.line + 1, 1⟩ else ⟨pos.line, pos.column + 1⟩

/-- The position after a text. -/
def advance (pos : Position) (text : List Char) : Position :=
  text.foldl next pos

/-- Nothing moves no position. -/
@[simp] theorem advance_nil (pos : Position) : pos.advance [] = pos :=
  rfl

/-- Moving over a text is moving over its parts. -/
@[simp] theorem advance_append (pos : Position) (first second : List Char) :
    pos.advance (first ++ second) = (pos.advance first).advance second := by
  simp [advance]

end Position

end FrancaLint.Source
