/-!
Texts in columns.
-/

namespace SourceDesk

/-- A text with blanks behind it, up to a width. A longer text stays what it is. -/
def padded (width : Nat) (s : String) : String :=
  s ++ String.ofList (List.replicate (width - s.length) ' ')

end SourceDesk
