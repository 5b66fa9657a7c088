import SourceDesk.Bytes

/-!
The single-byte charset windows-1252, with a character for every byte: the five
positions that the code page leaves open stand for the control characters of the
same number.
-/

namespace SourceDesk.Windows1252

/-- The characters of the bytes 0x80 to 0x9F. -/
def upper : List Char :=
  [0x20AC, 0x81, 0x201A, 0x0192, 0x201E, 0x2026, 0x2020, 0x2021,
   0x02C6, 0x2030, 0x0160, 0x2039, 0x0152, 0x8D, 0x017D, 0x8F,
   0x90, 0x2018, 0x2019, 0x201C, 0x201D, 0x2022, 0x2013, 0x2014,
   0x02DC, 0x2122, 0x0161, 0x203A, 0x0153, 0x9D, 0x017E, 0x0178].map Char.ofNat

/-- The character of a byte. -/
def decodeByte (b : UInt8) : Char :=
  if 0x80 ≤ b ∧ b < 0xA0 then upper.getD (b.toNat - 0x80) (Char.ofNat 0xFFFD)
  else Char.ofNat b.toNat

/-- The byte of a character, if it has one. -/
def encodeChar? (c : Char) : Option UInt8 :=
  if c.toNat < 0x80 ∨ (0xA0 ≤ c.toNat ∧ c.toNat < 0x100) then some (UInt8.ofNat c.toNat)
  else (upper.idxOf? c).map fun i => UInt8.ofNat (0x80 + i)

/-- The text of a byte string: one character a byte. -/
def decode (bs : Bytes) : String := String.ofList (bs.map decodeByte)

end SourceDesk.Windows1252
