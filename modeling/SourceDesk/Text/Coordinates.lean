/-!
Lines and columns. A position in a text is a number of characters; people are told
the line and the column, both counted from one.
-/

namespace SourceDesk

/-- A line and a column, counted from one. -/
structure Coordinates where
  line : Nat
  column : Nat
  deriving DecidableEq, Repr

namespace Coordinates

/-- The start of every text. -/
def origin : Coordinates := ⟨1, 1⟩

/-- The place after one more character: a line feed starts a line, any other
character takes a column. -/
def advance (p : Coordinates) (c : Char) : Coordinates :=
  if c.toNat = 10 then ⟨p.line + 1, 1⟩ else ⟨p.line, p.column + 1⟩

/-- The place of a character offset in a text. An offset past the end counts as
the end. -/
def ofOffset (content : String) (offset : Nat) : Coordinates :=
  (content.toList.take offset).foldl advance origin

end Coordinates

end SourceDesk
