import SourceDesk.Json.Numeral

/-!
JSON values as trees, and how a tree is read. An object keeps its members in order,
repeated keys included; `settle` gives the tree in which the last of them counts and
the keys are sorted.
-/

namespace SourceDesk.Json

/-- A JSON value. -/
inductive Tree where
  | null
  | boolean (b : Bool)
  | number (n : Number)
  | text (s : String)
  | array (items : List Tree)
  | object (members : List (String × Tree))

namespace Tree

/-- What the value turned out to be, for messages. -/
def found : Tree → Found
  | .null => .null
  | .boolean b => .boolean b
  | .number n => .number n
  | .text s => .text s
  | .array _ => .sequence
  | .object _ => .mapping

/-- Puts a member into a list sorted by key, in place of one with the same key. -/
def insertMember {α : Type} (key : String) (value : α) : List (String × α) → List (String × α)
  | [] => [(key, value)]
  | (k, v) :: rest =>
    if key = k then (key, value) :: rest
    else if key < k then (key, value) :: (k, v) :: rest
    else (k, v) :: insertMember key value rest

mutual

/-- The tree in which every key of an object stands once, with its last value, and
the keys are in ascending order. -/
def settle : Tree → Tree
  | .array items => .array (settleItems items)
  | .object members => .object (settleMembers [] members)
  | .null => .null
  | .boolean b => .boolean b
  | .number n => .number n
  | .text s => .text s

def settleItems : List Tree → List Tree
  | [] => []
  | t :: ts => settle t :: settleItems ts

def settleMembers (done : List (String × Tree)) : List (String × Tree) → List (String × Tree)
  | [] => done
  | (k, t) :: rest => settleMembers (insertMember k (settle t) done) rest

end

end Tree

/-- How deep values may be nested. -/
def maxDepth : Nat := 127

/-- Reads what precedes an element: `none` at the closing bracket, which stays, else
the text from the element on. `first` says that no element was read yet. -/
def readElementStart (first : Bool) (s : Bytes) : Except Fault (Option Bytes) :=
  match skipBlanks s with
  | [] => .error (.next [] .endInList)
  | b :: r =>
    if b = closeBracket then .ok none
    else if first then .ok (some (b :: r))
    else if b ≠ comma then .error (.next (b :: r) .expectedCommaOrBracket)
    else
      match skipBlanks r with
      | [] => .error (.next [] .endInValue)
      | c :: t =>
        if c = closeBracket then .error (.next (c :: t) .trailingComma) else .ok (some (c :: t))

/-- Reads a key, and what precedes it: `none` at the closing brace, which stays, else
the key and the text behind it. -/
def readKey (first : Bool) (s : Bytes) : Except Fault (Option (String × Bytes)) :=
  let key (s : Bytes) : Except Fault (Option (String × Bytes)) :=
    match readString s with
    | .error f => .error f
    | .ok k => .ok (some k)
  match skipBlanks s with
  | [] => .error (.next [] .endInObject)
  | b :: r =>
    if b = closeBrace then .ok none
    else if first then
      if b = quote then key r else .error (.next (b :: r) .keyNotString)
    else if b ≠ comma then .error (.next (b :: r) .expectedCommaOrBrace)
    else
      match skipBlanks r with
      | [] => .error (.next [] .endInValue)
      | c :: t =>
        if c = quote then key t
        else if c = closeBrace then .error (.next (c :: t) .trailingComma)
        else .error (.next (c :: t) .keyNotString)

/-- Reads the colon behind a key. -/
def readColon (s : Bytes) : Except Fault Bytes :=
  match skipBlanks s with
  | [] => .error (.next [] .endInObject)
  | b :: r => if b = colon then .ok r else .error (.next (b :: r) .expectedColon)

/-- Reads the bracket that closes a list whose elements are all read. -/
def closeList (s : Bytes) : Except Fault Bytes :=
  match skipBlanks s with
  | [] => .error (.next [] .endInList)
  | b :: r =>
    if b = closeBracket then .ok r
    else if b = comma then
      match skipBlanks r with
      | [] => .error (.next [] .trailingCharacters)
      | c :: t =>
        .error (.next (c :: t) (if c = closeBracket then .trailingComma else .trailingCharacters))
    else .error (.next (b :: r) .trailingCharacters)

/-- Where the text goes on when a list is given up before its end: behind its bracket
if that is what comes next. -/
def leaveList (s : Bytes) : Bytes :=
  match skipBlanks s with
  | [] => []
  | b :: r => if b = closeBracket then r else b :: r

/-- Where the text goes on when an object is given up before its end: behind its
brace if that is what comes next. -/
def leaveObject (s : Bytes) : Bytes :=
  match skipBlanks s with
  | [] => []
  | b :: r => if b = closeBrace then r else b :: r

mutual

/-- Reads a value, with `depth` levels of nesting left. -/
def readTree : (fuel depth : Nat) → Bytes → Reading Tree
  | 0, _, _ => .error (.here [] .endInValue)
  | fuel + 1, depth, s =>
    match skipBlanks s with
    | [] => .error (.next [] .endInValue)
    | b :: r =>
      if b = 0x6E then (readLiteral nullTail r).map fun r => (.null, r)
      else if b = 0x74 then (readLiteral trueTail r).map fun r => (.boolean true, r)
      else if b = 0x66 then (readLiteral falseTail r).map fun r => (.boolean false, r)
      else if b = minus || isDigit b then (readNumber (b :: r)).map fun (n, r) => (.number n, r)
      else if b = quote then (readString r).map fun (t, r) => (.text t, r)
      else if b = openBracket then
        match depth with
        | 0 => .error (.next (b :: r) .nestingTooDeep)
        | depth + 1 => (readItems fuel depth true r).map fun (ts, r) => (.array ts, leaveList r)
      else if b = openBrace then
        match depth with
        | 0 => .error (.next (b :: r) .nestingTooDeep)
        | depth + 1 =>
          (readMembers fuel depth true r).map fun (ms, r) => (.object ms, leaveObject r)
      else .error (.next (b :: r) .expectedValue)

/-- Reads the elements of a list up to its closing bracket, which stays. -/
def readItems : (fuel depth : Nat) → (first : Bool) → Bytes → Reading (List Tree)
  | 0, _, _, _ => .error (.here [] .endInValue)
  | fuel + 1, depth, first, s =>
    match readElementStart first s with
    | .error f => .error f
    | .ok none => .ok ([], skipBlanks s)
    | .ok (some s) =>
      match readTree fuel depth s with
      | .error f => .error f
      | .ok (t, r) => (readItems fuel depth false r).map fun (ts, r) => (t :: ts, r)

/-- Reads the members of an object up to its closing brace, which stays. -/
def readMembers : (fuel depth : Nat) → (first : Bool) → Bytes → Reading (List (String × Tree))
  | 0, _, _, _ => .error (.here [] .endInValue)
  | fuel + 1, depth, first, s =>
    match readKey first s with
    | .error f => .error f
    | .ok none => .ok ([], skipBlanks s)
    | .ok (some (k, s)) =>
      match readColon s with
      | .error f => .error f
      | .ok s =>
        match readTree fuel depth s with
        | .error f => .error f
        | .ok (t, r) => (readMembers fuel depth false r).map fun (ms, r) => ((k, t) :: ms, r)

end

/-- Fuel enough to read any value of a text: every second call takes a byte. -/
def treeFuel (s : Bytes) : Nat := 2 * s.length + 2

/-- Reads that nothing but blanks is left. -/
def readEnd (s : Bytes) : Except Fault Unit :=
  match skipBlanks s with
  | [] => .ok ()
  | b :: r => .error (.next (b :: r) .trailingCharacters)

end SourceDesk.Json
