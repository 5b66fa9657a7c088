import SourceDesk.Json.Scan

/-!
Writing JSON: compact, members in the order given, one escape for each character that
may not stand in a string as it is.
-/

namespace SourceDesk.Json.Write

/-- The bytes of a word. -/
def word (s : String) : Bytes := Utf8.encode s

/-- A hexadecimal digit, lower case. -/
def hexDigit (n : Nat) : UInt8 := if n < 10 then UInt8.ofNat (0x30 + n) else UInt8.ofNat (0x57 + n)

/-- A character inside a string. Quote, backslash and the controls are escaped, the
controls with a letter where they have one. -/
def char (c : Char) : Bytes :=
  match c.toNat with
  | 0x08 => [backslash, 0x62]
  | 0x09 => [backslash, 0x74]
  | 0x0A => [backslash, 0x6E]
  | 0x0C => [backslash, 0x66]
  | 0x0D => [backslash, 0x72]
  | 0x22 => [backslash, quote]
  | 0x5C => [backslash, backslash]
  | n =>
    if n < 0x20 then [backslash, unicodeLetter, 0x30, 0x30, hexDigit (n / 16), hexDigit (n % 16)]
    else String.utf8EncodeChar c

/-- A string. -/
def text (s : String) : Bytes := quote :: s.toList.flatMap char ++ [quote]

/-- A natural number. -/
def nat (n : Nat) : Bytes := (Nat.toDigits 10 n).map fun c => UInt8.ofNat c.toNat

/-- The value that stands for nothing. -/
def null : Bytes := word "null"

/-- Values with commas between them. -/
def separated : List Bytes → Bytes
  | [] => []
  | [v] => v
  | v :: vs => v ++ comma :: separated vs

/-- A list of written values. -/
def list (vs : List Bytes) : Bytes := openBracket :: separated vs ++ [closeBracket]

/-- A member with a written value. -/
def member (key : String) (value : Bytes) : Bytes := text key ++ colon :: value

/-- An object of members with written values. -/
def object (ms : List (String × Bytes)) : Bytes :=
  openBrace :: separated (ms.map fun m => member m.1 m.2) ++ [closeBrace]

end SourceDesk.Json.Write
