import SourceDesk.Json.Tree
import SourceDesk.Json.Write

/-! The grammar of JSON, as a relation between values and the byte strings that spell them.
Strings may be spelled with any escapes, blanks may stand around every token, and objects keep
their members in the order of the text, repeated keys included. Only what a floating point
number is worth is taken from its reader. -/
namespace SourceDesk.Json

/-- Blanks and nothing else. -/
def Blank (bs : Bytes) : Prop := ∀ b ∈ bs, isBlank b = true

/-! ### Strings -/

/-- Four hexadecimal digits of a value. -/
def IsHex (n : Nat) (ds : Bytes) : Prop := ∃ a b c d, ds = [a, b, c, d] ∧ hexValue? a b c d = some n

/-- What follows the backslash of an escape, and the bytes that the escape means: one byte, or
a character by its number, where a character outside the basic plane takes a pair. -/
inductive IsEscape : (written meant : Bytes) → Prop
  | letter {l b} : shortEscape? l = some b → IsEscape [l] [b]
  | character {n ds} : IsHex n ds → isLead n = false → isTrail n = false →
    IsEscape (unicodeLetter :: ds) (codePoint n)
  | pair {n ds k es} : IsHex n ds → isLead n = true → IsHex k es → isTrail k = true →
    IsEscape (unicodeLetter :: ds ++ backslash :: unicodeLetter :: es) (codePoint (pairValue n k))

/-- What stands between the quotes of a string, and the bytes that it means. -/
inductive Means : (written meant : Bytes) → Prop
  | nil : Means [] []
  | plain {b w m} : 0x20 ≤ b → b ≠ quote → b ≠ backslash → Means w m → Means (b :: w) (b :: m)
  | escape {e bs w m} : IsEscape e bs → Means w m → Means (backslash :: e ++ w) (bs ++ m)

/-- The spellings of a text. -/
def SpelledText (s : String) (v : Bytes) : Prop :=
  ∃ w, v = quote :: w ++ [quote] ∧ Means w (Utf8.encode s)

/-! ### Numbers -/

/-- One digit at least, and nothing else. -/
def Digits (ds : Bytes) : Prop := ds ≠ [] ∧ ∀ b ∈ ds, isDigit b = true

/-- The whole part of a numeral, in which a leading zero stands alone. -/
def IsWhole (ds : Bytes) : Prop := Digits ds ∧ (ds.head? = some zeroDigit → ds = [zeroDigit])

/-- A fraction with its point, or nothing. -/
def IsFraction (bs : Bytes) : Prop := bs = [] ∨ ∃ ds, bs = point :: ds ∧ Digits ds

/-- An exponent with its mark and perhaps a sign, or nothing. -/
def IsExponent (bs : Bytes) : Prop :=
  bs = [] ∨ ∃ mark sign ds, bs = mark :: sign ++ ds ∧ isExponentMark mark = true ∧
    (sign = [] ∨ sign = [plus] ∨ sign = [minus]) ∧ Digits ds

/-- The numerals of JSON. -/
def IsNumeral (bs : Bytes) : Prop :=
  ∃ sign whole fraction exponent, bs = sign ++ whole ++ fraction ++ exponent ∧
    (sign = [] ∨ sign = [minus]) ∧ IsWhole whole ∧ IsFraction fraction ∧ IsExponent exponent

/-- The spellings of a number: an integer that fits in 64 bits has just one, and any other
numeral is a floating point number if it has a value. -/
def Number.SpelledBy : Number → Bytes → Prop
  | .nat n, v => n < wordSize ∧ v = Write.nat n
  | .negative n, v => 0 < n ∧ n ≤ Nat.pow 2 63 ∧ v = minus :: Write.nat n
  | .real sign x, v => IsNumeral v ∧ readNumber v = .ok (.real sign x, [])

/-! ### Values -/

/-- What stands in front of an item: blanks, and a comma among them unless it is the first. -/
def IsGap (first : Bool) (gap : Bytes) : Prop :=
  if first then Blank gap else ∃ a b, gap = a ++ comma :: b ∧ Blank a ∧ Blank b

/-- A colon, perhaps with blanks around it. -/
def IsColon (gap : Bytes) : Prop := ∃ a b, gap = a ++ colon :: b ∧ Blank a ∧ Blank b

mutual

/-- The spellings of a value, without blanks around it. -/
def Tree.SpelledBy : Tree → Bytes → Prop
  | .null, v => v = Write.null
  | .boolean b, v => v = Write.word (if b then "true" else "false")
  | .number n, v => n.SpelledBy v
  | .text s, v => SpelledText s v
  | .array items, v => ∃ w, v = openBracket :: w ++ [closeBracket] ∧ SpelledItems true items w
  | .object members, v => ∃ w, v = openBrace :: w ++ [closeBrace] ∧ SpelledMembers true members w

/-- The spellings of the items of a list from one of them on. -/
def SpelledItems : (first : Bool) → List Tree → Bytes → Prop
  | _, [], w => Blank w
  | first, t :: ts, w => ∃ gap v rest, w = gap ++ v ++ rest ∧ IsGap first gap ∧ t.SpelledBy v ∧
      SpelledItems false ts rest

/-- The spellings of the members of an object from one of them on. -/
def SpelledMembers : (first : Bool) → List (String × Tree) → Bytes → Prop
  | _, [], w => Blank w
  | first, (k, t) :: ms, w => ∃ gap key mid v rest, w = gap ++ key ++ mid ++ v ++ rest ∧
      IsGap first gap ∧ SpelledText k key ∧ IsColon mid ∧ t.SpelledBy v ∧
      SpelledMembers false ms rest

end

mutual

/-- How deep a value is nested. -/
def Tree.depth : Tree → Nat
  | .array items => depthOfItems items + 1
  | .object members => depthOfMembers members + 1
  | .null => 0
  | .boolean _ => 0
  | .number _ => 0
  | .text _ => 0

def depthOfItems : List Tree → Nat
  | [] => 0
  | t :: ts => max t.depth (depthOfItems ts)

def depthOfMembers : List (String × Tree) → Nat
  | [] => 0
  | (_, t) :: ms => max t.depth (depthOfMembers ms)

end

/-- The texts that hold a value and nothing else. -/
def Tree.SpelledIn (t : Tree) (text : Bytes) : Prop :=
  ∃ a v b, text = a ++ v ++ b ∧ Blank a ∧ t.SpelledBy v ∧ Blank b

end SourceDesk.Json
