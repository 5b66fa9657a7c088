import SourceDesk.Text.Unprintable
import SourceDesk.Text.Utf8

/-!
Quoted form of texts and of byte strings, as messages show them: in double quotes,
with a backslash escape for every character that would not be seen as itself.
-/

namespace SourceDesk.Quoted

/-- The digits of a number in a base up to 16, lower case. -/
def digits (base n : Nat) : String := String.ofList (Nat.toDigits base n)

/-- A backslash. -/
def backslash : String := "\\"

/-- How a character stands in a quoted text. -/
def escapeChar (c : Char) : String :=
  match c.toNat with
  | 0 => backslash ++ "0"
  | 9 => backslash ++ "t"
  | 10 => backslash ++ "n"
  | 13 => backslash ++ "r"
  | 34 => backslash ++ "\""
  | 92 => backslash ++ backslash
  | n =>
    if Unprintable.contains c then backslash ++ "u\x7b" ++ digits 16 n ++ "\x7d" else c.toString

/-- How a byte that belongs to no character stands in a quoted byte string. -/
def escapeByte (b : UInt8) : String :=
  let hex := (digits 16 b.toNat).toUpper
  backslash ++ "x" ++ (if b < 0x10 then "0" ++ hex else hex)

/-- How a piece of a byte string stands in its quoted form. -/
def escapePiece : Utf8.Piece → String
  | .scalar c => escapeChar c
  | .broken bytes => String.join (bytes.map escapeByte)

/-- A text in quotes. -/
def ofText (s : String) : String := "\"" ++ String.join (s.toList.map escapeChar) ++ "\""

/-- A byte string in quotes. -/
def ofBytes (bs : Bytes) : String := "\"" ++ String.join ((Utf8.pieces bs).map escapePiece) ++ "\""

end SourceDesk.Quoted
