import SourceDesk.Text.Utf8
import SourceDesk.Text.Windows1252

/-!
Charsets and their labels. A text is written with the charset that its label names,
and only if every character has a place there: nothing is ever replaced on the way
out. A byte string is read as UTF-8 where it is well-formed, else as windows-1252.

The charsets that a text can be read as are spelled out here, with those that are written
as UTF-8 and the one of the user. The rest, with their tables, are left open.
-/

namespace SourceDesk

/-- The charsets that are spelled out. -/
inductive Charset where
  | utf8
  | windows1252
  | utf16BE
  | utf16LE
  | replacement
  | userDefined
  deriving DecidableEq, Repr

namespace Charset

/-- The labels of each charset, in lower case. -/
def labels : Charset → List String
  | .utf8 =>
    ["unicode-1-1-utf-8", "unicode11utf8", "unicode20utf8", "utf-8", "utf8", "x-unicode20utf8"]
  | .windows1252 =>
    ["ansi_x3.4-1968", "ascii", "cp1252", "cp819", "csisolatin1", "ibm819", "iso-8859-1",
     "iso-ir-100", "iso8859-1", "iso88591", "iso_8859-1", "iso_8859-1:1987", "l1", "latin1",
     "us-ascii", "windows-1252", "x-cp1252"]
  | .utf16BE => ["unicodefffe", "utf-16be"]
  | .utf16LE =>
    ["csunicode", "iso-10646-ucs-2", "ucs-2", "unicode", "unicodefeff", "utf-16", "utf-16le"]
  | .replacement =>
    ["csiso2022kr", "hz-gb-2312", "iso-2022-cn", "iso-2022-cn-ext", "iso-2022-kr", "replacement"]
  | .userDefined => ["x-user-defined"]

/-- Every charset. -/
def all : List Charset := [.utf8, .windows1252, .utf16BE, .utf16LE, .replacement, .userDefined]

/-- The blanks that may stand around a label: tab, line feed, form feed, carriage
return and space. -/
def isLabelBlank (c : Char) : Bool := c ∈ [0x09, 0x0A, 0x0C, 0x0D, 0x20].map Char.ofNat

/-- Characters without the blanks at either end. -/
def trimBlanks (cs : List Char) : List Char :=
  ((cs.dropWhile isLabelBlank).reverse.dropWhile isLabelBlank).reverse

/-- A label without the blanks around it, in lower case (ASCII only). -/
def normalLabel (label : String) : String :=
  String.ofList ((trimBlanks label.toList).map Char.toLower)

/-- The charset that a label names, among these. -/
def ofLabel? (label : String) : Option Charset :=
  all.find? fun cs => (normalLabel label) ∈ cs.labels

/-- The bytes of one character, if the charset has it. UTF-16 and the replacement
charset are for reading only: texts that carry their labels are written as UTF-8. -/
def encodeChar? : Charset → Char → Option Bytes
  | .windows1252, c => (Windows1252.encodeChar? c).map fun b => [b]
  | .userDefined, c =>
    if c.toNat < 0x80 then some [UInt8.ofNat c.toNat]
    else if 0xF780 ≤ c.toNat ∧ c.toNat ≤ 0xF7FF then some [UInt8.ofNat (c.toNat - 0xF700)]
    else none
  | _, c => some (String.utf8EncodeChar c)

/-- The bytes of a run of characters, if the charset has them all. -/
def encodeChars? (cs : Charset) : List Char → Option Bytes
  | [] => some []
  | c :: r =>
    match cs.encodeChar? c, encodeChars? cs r with
    | some bs, some rest => some (bs ++ rest)
    | _, _ => none

/-- The bytes of a text, if the charset has all its characters. -/
def encode? (cs : Charset) (text : String) : Option Bytes := cs.encodeChars? text.toList

end Charset

/-- The charsets besides these: how a text is written in the one that a label names, in its
normal form, if there is one. A text that has no bytes there is not written at all. -/
class FurtherCharsets where
  encoder? : (label : String) → Option (String → Option Bytes)

/-- No charsets besides these. -/
abbrev FurtherCharsets.none : FurtherCharsets := ⟨fun _ => .none⟩

/-- The bytes of a text under a label; a label that names no charset counts as UTF-8. -/
def encodeText? [FurtherCharsets] (text label : String) : Option Bytes :=
  match Charset.ofLabel? label with
  | some cs => cs.encode? text
  | none =>
    match FurtherCharsets.encoder? (Charset.normalLabel label) with
    | some encode? => encode? text
    | none => Charset.utf8.encode? text

/-- A text that was read from bytes, and the label to write it back with. -/
structure DecodedText where
  content : String
  encoding : String
  deriving DecidableEq, Repr

/-- The mark that may open a UTF-8 file. -/
def byteOrderMark : Bytes := [0xEF, 0xBB, 0xBF]

/-- The bytes without one leading byte order mark. -/
def dropByteOrderMark (data : Bytes) : Bytes :=
  if byteOrderMark.isPrefixOf data then data.drop byteOrderMark.length else data

/-- Reads bytes as UTF-8, one leading byte order mark aside; if they are not
well-formed, as windows-1252, where the mark counts as three characters. -/
def DecodedText.decode (data : Bytes) : DecodedText :=
  match Utf8.decode? (dropByteOrderMark data) with
  | some content => ⟨content, "utf-8"⟩
  | none => ⟨Windows1252.decode data, "windows-1252"⟩

end SourceDesk
