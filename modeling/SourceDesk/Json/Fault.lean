import SourceDesk.Bytes
import SourceDesk.Double.Shortest
import SourceDesk.Text.Quoted

/-!
What can be wrong with a JSON text, and how it is said. A fault is a cause and, if it
was met in a text, the number of bytes that were left there.
-/

namespace SourceDesk.Json

/-- A JSON number: a natural below `2 ^ 64`, a negative integer not below `-2 ^ 63`,
or anything else as a floating point number. -/
inductive Number where
  | nat (n : Nat)
  | negative (n : Nat)
  | real (negative : Bool) (magnitude : Double)
  deriving DecidableEq, Repr

/-- What a value turned out to be. -/
inductive Found where
  | null
  | boolean (b : Bool)
  | number (n : Number)
  | text (s : String)
  | sequence
  | mapping
  deriving DecidableEq, Repr

/-- How a found value is named. -/
def Found.describe : Found → String
  | .null => "null"
  | .boolean b => "boolean `" ++ (if b then "true" else "false") ++ "`"
  | .number (.nat n) => "integer `" ++ toString n ++ "`"
  | .number (.negative n) => "integer `-" ++ toString n ++ "`"
  | .number (.real neg x) => "floating point `" ++ (if neg then "-" else "") ++ x.text ++ "`"
  | .text s => "string " ++ Quoted.ofText s
  | .sequence => "sequence"
  | .mapping => "map"

/-- The causes of failure. -/
inductive Cause where
  | endInList
  | endInObject
  | endInString
  | endInValue
  | expectedColon
  | expectedCommaOrBracket
  | expectedCommaOrBrace
  | expectedLiteral
  | expectedValue
  | invalidEscape
  | invalidNumber
  | numberOutOfRange
  | invalidCodePoint
  | loneSurrogate
  | endOfHexEscape
  | controlCharacter
  | keyNotString
  | trailingComma
  | trailingCharacters
  | nestingTooDeep
  | missingField (name : String)
  | duplicateField (name : String)
  | unknownVariant (name : String) (known : List String)
  | invalidType (found : Found) (expected : String)
  | invalidValue (found : Found) (expected : String)
  | invalidLength (length : Nat) (expected : String)
  deriving DecidableEq, Repr

/-- A list of names as a choice: the first ones with commas, the last after "or". -/
def oneOf : List String → String
  | [] => "nothing"
  | [a] => "`" ++ a ++ "`"
  | [a, b] => "`" ++ a ++ "` or `" ++ b ++ "`"
  | names => "one of " ++ ", ".intercalate (names.map fun a => "`" ++ a ++ "`")

/-- The wording of a cause. -/
def Cause.message : Cause → String
  | .endInList => "EOF while parsing a list"
  | .endInObject => "EOF while parsing an object"
  | .endInString => "EOF while parsing a string"
  | .endInValue => "EOF while parsing a value"
  | .expectedColon => "expected `:`"
  | .expectedCommaOrBracket => "expected `,` or `]`"
  | .expectedCommaOrBrace => "expected `,` or `\x7d`"
  | .expectedLiteral => "expected ident"
  | .expectedValue => "expected value"
  | .invalidEscape => "invalid escape"
  | .invalidNumber => "invalid number"
  | .numberOutOfRange => "number out of range"
  | .invalidCodePoint => "invalid unicode code point"
  | .loneSurrogate => "lone leading surrogate in hex escape"
  | .endOfHexEscape => "unexpected end of hex escape"
  | .controlCharacter => "control character (\\u0000-\\u001F) found while parsing a string"
  | .keyNotString => "key must be a string"
  | .trailingComma => "trailing comma"
  | .trailingCharacters => "trailing characters"
  | .nestingTooDeep => "recursion limit exceeded"
  | .missingField name => "missing field `" ++ name ++ "`"
  | .duplicateField name => "duplicate field `" ++ name ++ "`"
  | .unknownVariant name known => "unknown variant `" ++ name ++ "`, expected " ++ oneOf known
  | .invalidType found expected => "invalid type: " ++ found.describe ++ ", expected " ++ expected
  | .invalidValue found expected => "invalid value: " ++ found.describe ++ ", expected " ++ expected
  | .invalidLength n expected => "invalid length " ++ toString n ++ ", expected " ++ expected

/-- A cause, and the number of bytes left of the text where it was met; a fault of a
value that was read before has no place. -/
structure Fault where
  cause : Cause
  left : Option Nat
  deriving DecidableEq, Repr

namespace Fault

/-- A fault at the place where `rest` is left. -/
def here (rest : Bytes) (cause : Cause) : Fault := ⟨cause, some rest.length⟩

/-- A fault of the next byte, which counts as read; at the end of the text there is
none to count. -/
def next (rest : Bytes) (cause : Cause) : Fault := ⟨cause, some (rest.length - 1)⟩

/-- A fault `n` bytes before the place where `rest` is left. -/
def before (n : Nat) (rest : Bytes) (cause : Cause) : Fault := ⟨cause, some (rest.length + n)⟩

/-- A fault without a place. -/
def placeless (cause : Cause) : Fault := ⟨cause, none⟩

/-- The line, from one, in which a text goes on after `consumed`. -/
def line (consumed : Bytes) : Nat := consumed.count 10 + 1

/-- The number of bytes since the last line feed. -/
def column (consumed : Bytes) : Nat := (consumed.reverse.takeWhile (· != 10)).length

/-- What is said about a fault of a text. -/
def message (f : Fault) (text : Bytes) : String :=
  match f.left with
  | none => f.cause.message
  | some n =>
    let consumed := text.take (text.length - n)
    f.cause.message ++ " at line " ++ toString (line consumed) ++ " column " ++
      toString (column consumed)

end Fault

/-- The outcome of reading a value from the front of a text: the value and the rest. -/
abbrev Reading (α : Type) := Except Fault (α × Bytes)

end SourceDesk.Json
