import SourceDesk.Json.Fault
import SourceDesk.Text.Utf8

/-!
The smallest parts of a JSON text: blanks, the three literals, and strings.
-/

namespace SourceDesk.Json

/-- Space, tab, line feed and carriage return. -/
def isBlank (b : UInt8) : Bool := b == 0x20 || b == 0x09 || b == 0x0A || b == 0x0D

/-- The text after its leading blanks. -/
def skipBlanks (s : Bytes) : Bytes := s.dropWhile isBlank

/-- The bytes with a meaning of their own. -/
def quote : UInt8 := 0x22
def backslash : UInt8 := 0x5C
def comma : UInt8 := 0x2C
def colon : UInt8 := 0x3A
def openBracket : UInt8 := 0x5B
def closeBracket : UInt8 := 0x5D
def openBrace : UInt8 := 0x7B
def closeBrace : UInt8 := 0x7D
def minus : UInt8 := 0x2D

/-- Reads the given bytes one by one. -/
def readLiteral : (word s : Bytes) → Except Fault Bytes
  | [], s => .ok s
  | _ :: _, [] => .error (.here [] .endInValue)
  | w :: ws, b :: r => if b = w then readLiteral ws r else .error (.here r .expectedLiteral)

/-- What follows the first letter of `null`, `true` and `false`. -/
def nullTail : Bytes := [0x75, 0x6C, 0x6C]
def trueTail : Bytes := [0x72, 0x75, 0x65]
def falseTail : Bytes := [0x61, 0x6C, 0x73, 0x65]

/-- The value of a hexadecimal digit. -/
def hexDigit? (b : UInt8) : Option Nat :=
  if 0x30 ≤ b ∧ b ≤ 0x39 then some (b.toNat - 0x30)
  else if 0x41 ≤ b ∧ b ≤ 0x46 then some (b.toNat - 0x37)
  else if 0x61 ≤ b ∧ b ≤ 0x66 then some (b.toNat - 0x57)
  else none

/-- The value of four hexadecimal digits. -/
def hexValue? (a b c d : UInt8) : Option Nat :=
  match hexDigit? a, hexDigit? b, hexDigit? c, hexDigit? d with
  | some a, some b, some c, some d => some (((a * 16 + b) * 16 + c) * 16 + d)
  | _, _, _, _ => none

/-- The byte that a backslash and one letter stand for. -/
def shortEscape? (b : UInt8) : Option UInt8 :=
  if b = quote then some quote
  else if b = backslash then some backslash
  else if b = 0x2F then some 0x2F
  else if b = 0x62 then some 0x08
  else if b = 0x66 then some 0x0C
  else if b = 0x6E then some 0x0A
  else if b = 0x72 then some 0x0D
  else if b = 0x74 then some 0x09
  else none

/-- The letter of an escape by number. -/
def unicodeLetter : UInt8 := 0x75

def isTrail (n : Nat) : Bool := 0xDC00 ≤ n && n ≤ 0xDFFF
def isLead (n : Nat) : Bool := 0xD800 ≤ n && n ≤ 0xDBFF

/-- The bytes of the character with a code point. -/
def codePoint (n : Nat) : Bytes := String.utf8EncodeChar (Char.ofNat n)

/-- The code point of a surrogate pair. -/
def pairValue (lead trail : Nat) : Nat := 0x10000 + (lead - 0xD800) * 0x400 + (trail - 0xDC00)

/-- Reads four digits of an escape by number; if fewer are left the text ends there. -/
def readHex (s : Bytes) : Reading Nat :=
  match s with
  | a :: b :: c :: d :: r =>
    match hexValue? a b c d with
    | some n => .ok (n, r)
    | none => .error (.here r .invalidEscape)
  | _ => .error (.here [] .endInString)

/-- Reads an escape by number after its letter. A lead surrogate needs a trail
surrogate in an escape of its own right behind it. -/
def readCodePoint (s : Bytes) : Reading Bytes :=
  match readHex s with
  | .error f => .error f
  | .ok (n, r) =>
    if isTrail n then .error (.here r .loneSurrogate)
    else if isLead n then
      match r with
      | [] => .error (.here [] .endInString)
      | b :: r =>
        if b ≠ backslash then .error (.here r .endOfHexEscape)
        else
          match r with
          | [] => .error (.here [] .endInString)
          | u :: r =>
            if u ≠ unicodeLetter then .error (.here r .endOfHexEscape)
            else
              match readHex r with
              | .error f => .error f
              | .ok (m, r) =>
                if isTrail m then .ok (codePoint (pairValue n m), r)
                else .error (.here r .loneSurrogate)
    else .ok (codePoint n, r)

/-- Reads an escape after its backslash. -/
def readEscape (s : Bytes) : Reading Bytes :=
  match s with
  | [] => .error (.here [] .endInString)
  | b :: r =>
    if b = unicodeLetter then readCodePoint r
    else
      match shortEscape? b with
      | some c => .ok ([c], r)
      | none => .error (.here r .invalidEscape)

/-- Reads the bytes of a string up to its closing quote, escapes resolved. Each step
takes a byte at least, so the length of the text is fuel enough. -/
def readStringBytes : (fuel : Nat) → Bytes → Reading Bytes
  | 0, _ => .error (.here [] .endInString)
  | _ + 1, [] => .error (.here [] .endInString)
  | fuel + 1, b :: r =>
    if b = quote then .ok ([], r)
    else if b = backslash then
      match readEscape r with
      | .error f => .error f
      | .ok (bytes, r) =>
        match readStringBytes fuel r with
        | .error f => .error f
        | .ok (more, r) => .ok (bytes ++ more, r)
    else if b < 0x20 then .error (.here r .controlCharacter)
    else
      match readStringBytes fuel r with
      | .error f => .error f
      | .ok (more, r) => .ok (b :: more, r)

/-- Reads a string after its opening quote. Its bytes have to be UTF-8. If they are
not, the fault is counted back from the closing quote: by the bytes of the value from
the first one on that belongs to no character, an escape as long as what it means. -/
def readString (s : Bytes) : Reading String :=
  match readStringBytes (s.length + 1) s with
  | .error f => .error f
  | .ok (bytes, r) =>
    match Utf8.decode? bytes with
    | some text => .ok (text, r)
    | none => .error (.before (bytes.length - Utf8.validLength bytes) r .invalidCodePoint)

/-- Passes over a string after its opening quote, without a look at its characters. -/
def skipString : (fuel : Nat) → Bytes → Except Fault Bytes
  | 0, _ => .error (.here [] .endInString)
  | _ + 1, [] => .error (.here [] .endInString)
  | fuel + 1, b :: r =>
    if b = quote then .ok r
    else if b = backslash then
      match r with
      | [] => .error (.here [] .endInString)
      | e :: r =>
        if e = unicodeLetter then
          match readHex r with
          | .error f => .error f
          | .ok (_, r) => skipString fuel r
        else if (shortEscape? e).isSome then skipString fuel r
        else .error (.here r .invalidEscape)
    else if b < 0x20 then .error (.here (b :: r) .controlCharacter)
    else skipString fuel r

end SourceDesk.Json
