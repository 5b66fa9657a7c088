import SourceDesk.Json.Skip
import SourceDesk.Json.Tree
import SourceDesk.Path

/-!
Reading typed values. A `Decoder` reads its values in two ways: `direct` from a text,
with a place for each fault, and `ofTree` from a tree that was read before. Decoders
of records are put together from `Fields`, so that a record is described once and both
ways follow the same rules: members in any order, unknown ones passed over, a known
one at most once, absent ones filled in or missed; or the values alone, in order.
-/

namespace SourceDesk.Json

/-- How a list that is too long for a record is complained about. -/
inductive Excess where
  /-- The list is a part of a text that was read ahead. -/
  | inSequence
  /-- The list is a value in its own right. -/
  | inArray
  deriving DecidableEq, Repr

/-- The cause of failure of a list of `length` elements where `taken` were wanted. -/
def Excess.cause (e : Excess) (taken length : Nat) : Cause :=
  match e with
  | .inSequence =>
    .invalidLength length
      (toString taken ++ (if taken = 1 then " element" else " elements") ++ " in sequence")
  | .inArray => .invalidLength length "fewer elements in array"

/-- Two ways of reading values of a type. -/
structure Decoder (α : Type) where
  direct : Bytes → Reading α
  ofTree : Excess → Tree → Except Cause α

/-- The fault of a value that is not of the expected type. Such a value is read all
the same if it is no list and no object, and may be found faulty in itself. -/
def mismatch (expected : String) (s : Bytes) : Fault :=
  let found (v : Found) (r : Bytes) : Fault := .here r (.invalidType v expected)
  let literal (tail r : Bytes) (v : Found) : Fault :=
    match readLiteral tail r with
    | .error e => e
    | .ok r => found v r
  let after {α : Type} (x : Reading α) (f : α → Found) : Fault :=
    match x with
    | .error e => e
    | .ok (a, r) => found (f a) r
  match s with
  | [] => .next [] .endInValue
  | b :: r =>
    if b = 0x6E then literal nullTail r .null
    else if b = 0x74 then literal trueTail r (.boolean true)
    else if b = 0x66 then literal falseTail r (.boolean false)
    else if b = minus || isDigit b then after (readNumber s) .number
    else if b = quote then after (readString r) .text
    else if b = openBracket then found .sequence s
    else if b = openBrace then found .mapping s
    else .next s .expectedValue

/-- Reads a string where something called `expected` is wanted. -/
def readText (expected : String) (s : Bytes) : Reading String :=
  match skipBlanks s with
  | [] => .error (.next [] .endInValue)
  | b :: r => if b = quote then readString r else .error (mismatch expected (b :: r))

namespace Decoder

/-- Reads values of another type through a function. -/
def map {α β : Type} (f : α → β) (d : Decoder α) : Decoder β where
  direct s := (d.direct s).map fun (a, r) => (f a, r)
  ofTree e t := (d.ofTree e t).map f

/-- A string that messages call `expected`. -/
def named (expected : String) : Decoder String where
  direct s := readText expected s
  ofTree _ t :=
    match t with
    | .text s => .ok s
    | t => .error (.invalidType t.found expected)

/-- A string. -/
def text : Decoder String := named "a string"

/-- A path, written as a string. -/
def path : Decoder Path := (named "path string").map Path.ofText

/-- What a count is called. -/
def countName : String := "usize"

/-- The count that a number is, if it is one. -/
def countOf (n : Number) : Except Cause UInt64 :=
  match n with
  | .nat n => .ok (UInt64.ofNat n)
  | .negative n => .error (.invalidValue (.number (.negative n)) countName)
  | .real neg x => .error (.invalidType (.number (.real neg x)) countName)

/-- A natural number below `2 ^ 64`. -/
def count : Decoder UInt64 where
  direct s :=
    match skipBlanks s with
    | [] => .error (.next [] .endInValue)
    | b :: r =>
      if b = minus || isDigit b then
        match readNumber (b :: r) with
        | .error f => .error f
        | .ok (n, r) =>
          match countOf n with
          | .ok n => .ok (n, r)
          | .error c => .error (.here r c)
      else .error (mismatch countName (b :: r))
  ofTree _ t :=
    match t with
    | .number n => countOf n
    | t => .error (.invalidType t.found countName)

/-- A value or null. -/
def optional {α : Type} (d : Decoder α) : Decoder (Option α) where
  direct s :=
    match skipBlanks s with
    | 0x6E :: r => (readLiteral nullTail r).map fun r => (none, r)
    | s => (d.direct s).map fun (a, r) => (some a, r)
  ofTree e t :=
    match t with
    | .null => .ok none
    | t => (d.ofTree e t).map some

/-- Reads elements up to the closing bracket, which stays. -/
def readElements {α : Type} (d : Decoder α) :
    (fuel : Nat) → (first : Bool) → Bytes → Reading (List α)
  | 0, _, _ => .error (.here [] .endInValue)
  | fuel + 1, first, s =>
    match readElementStart first s with
    | .error f => .error f
    | .ok none => .ok ([], skipBlanks s)
    | .ok (some s) =>
      match d.direct s with
      | .error f => .error f
      | .ok (a, r) => (d.readElements fuel false r).map fun (as, r) => (a :: as, r)

/-- The values of trees, in order. -/
def ofTrees {α : Type} (d : Decoder α) (e : Excess) : List Tree → Except Cause (List α)
  | [] => .ok []
  | t :: ts =>
    match d.ofTree e t with
    | .error c => .error c
    | .ok a => (d.ofTrees e ts).map (a :: ·)

/-- What a list is called. -/
def listName : String := "a sequence"

/-- A list of values. -/
def list {α : Type} (d : Decoder α) : Decoder (List α) where
  direct s :=
    match skipBlanks s with
    | [] => .error (.next [] .endInValue)
    | b :: r =>
      if b = openBracket then
        (d.readElements (r.length + 1) true r).map fun (as, r) => (as, leaveList r)
      else .error (mismatch listName (b :: r))
  ofTree e t :=
    match t with
    | .array ts => d.ofTrees e ts
    | t => .error (.invalidType t.found listName)

/-- Any value, settled. It is not read from a text directly. -/
def free : Decoder Tree where
  direct s := (readTree (treeFuel s) maxDepth s).map fun (t, r) => (t.settle, r)
  ofTree _ t := .ok t.settle

end Decoder

/-- The fields of a record, in order: each with its key, the reader of its value, and
the value it has when absent, if it may be absent. -/
inductive Fields : Type → Type 1 where
  | done : Fields Unit
  | field {α β : Type} (key : String) (decoder : Decoder α) (absent : Option α) (rest : Fields β) :
      Fields (α × β)

namespace Fields

/-- The values found so far. -/
def Slots : {α : Type} → Fields α → Type
  | _, .done => Unit
  | _, .field (α := α) _ _ _ rest => Option α × rest.Slots

/-- No value found yet. -/
def noSlots : {α : Type} → (f : Fields α) → f.Slots
  | _, .done => ()
  | _, .field _ _ _ rest => (none, rest.noSlots)

/-- The number of fields. -/
def length : {α : Type} → Fields α → Nat
  | _, .done => 0
  | _, .field _ _ _ rest => rest.length + 1

/-- What a member does to the slots. -/
inductive Member (σ : Type) where
  /-- No field has its key. -/
  | unknown
  /-- The field has its value already. -/
  | repeated
  /-- The value goes into a slot, as soon as it is read in either way. -/
  | fills (direct : Bytes → Reading σ) (ofTree : Excess → Tree → Except Cause σ)

/-- What a member with a key does. -/
def member : {α : Type} → (f : Fields α) → (key : String) → f.Slots → Member f.Slots
  | _, .done, _, _ => .unknown
  | _, .field (α := α) k d _ rest, key, slots =>
    let slot : Option α := slots.1
    if key = k then
      match slot with
      | some _ => .repeated
      | none =>
        .fills (fun s => (d.direct s).map fun (a, r) => ((some a, slots.2), r))
          (fun e t => (d.ofTree e t).map fun a => (some a, slots.2))
    else
      match rest.member key slots.2 with
      | .unknown => .unknown
      | .repeated => .repeated
      | .fills direct ofTree =>
        .fills (fun s => (direct s).map fun (x, r) => ((slot, x), r))
          (fun e t => (ofTree e t).map fun x => (slot, x))

/-- The record, if every field has its value or may be absent; else the first field
that is missed. -/
def finish : {α : Type} → (f : Fields α) → f.Slots → Except Cause α
  | _, .done, _ => .ok ()
  | _, .field (α := α) k _ absent rest, slots =>
    let slot : Option α := slots.1
    match slot.or absent with
    | none => .error (.missingField k)
    | some a => (rest.finish slots.2).map fun b => (a, b)

/-- Reads members up to the closing brace, which stays. -/
def readMembers {α : Type} (f : Fields α) :
    (fuel : Nat) → (first : Bool) → f.Slots → Bytes → Reading f.Slots
  | 0, _, _, _ => .error (.here [] .endInValue)
  | fuel + 1, first, slots, s =>
    match readKey first s with
    | .error e => .error e
    | .ok none => .ok (slots, skipBlanks s)
    | .ok (some (key, s)) =>
      match f.member key slots with
      | .repeated => .error (.here (leaveObject s) (.duplicateField key))
      | .unknown =>
        match readColon s with
        | .error e => .error e
        | .ok s =>
          match skipValue s with
          | .error e => .error e
          | .ok s => f.readMembers fuel false slots s
      | .fills direct _ =>
        match readColon s with
        | .error e => .error e
        | .ok s =>
          match direct s with
          | .error e => .error e
          | .ok (slots, s) => f.readMembers fuel false slots s

/-- The slots after the members of an object. -/
def takeMembers {α : Type} (f : Fields α) (e : Excess) :
    f.Slots → List (String × Tree) → Except Cause f.Slots
  | slots, [] => .ok slots
  | slots, (key, t) :: rest =>
    match f.member key slots with
    | .repeated => .error (.duplicateField key)
    | .unknown => f.takeMembers e slots rest
    | .fills _ ofTree =>
      match ofTree e t with
      | .error c => .error c
      | .ok slots => f.takeMembers e slots rest

/-- Reads values in the order of the fields; `taken` were read before. Where the list
is over, the fields that may be absent are, and the first other one is a fault. -/
def readValues (wanted : String) : {α : Type} → (f : Fields α) → (taken : Nat) → Bytes → Reading α
  | _, .done, _, s => .ok ((), s)
  | _, .field _ d absent rest, taken, s =>
    match readElementStart (taken == 0) s with
    | .error e => .error e
    | .ok none =>
      match absent with
      | none => .error (.here (leaveList s) (.invalidLength taken wanted))
      | some a => (rest.readValues wanted (taken + 1) s).map fun (b, r) => ((a, b), r)
    | .ok (some s) =>
      match d.direct s with
      | .error e => .error e
      | .ok (a, r) => (rest.readValues wanted (taken + 1) r).map fun (b, r) => ((a, b), r)

/-- The values of trees in the order of the fields, and the trees that are left. -/
def takeValues (wanted : String) (e : Excess) :
    {α : Type} → (f : Fields α) → (taken : Nat) → List Tree → Except Cause (α × List Tree)
  | _, .done, _, ts => .ok ((), ts)
  | _, .field _ _ absent rest, taken, [] =>
    match absent with
    | none => .error (.invalidLength taken wanted)
    | some a => (rest.takeValues wanted e (taken + 1) []).map fun (b, r) => ((a, b), r)
  | _, .field _ d _ rest, taken, t :: ts =>
    match d.ofTree e t with
    | .error c => .error c
    | .ok a => (rest.takeValues wanted e (taken + 1) ts).map fun (b, r) => ((a, b), r)

/-- What a record in list form is called. -/
def listForm (name : String) (n : Nat) : String :=
  name ++ " with " ++ toString n ++ (if n = 1 then " element" else " elements")

/-- Reads a record from its members, or from its values in order. -/
def ofTree {α : Type} (f : Fields α) (name : String) (e : Excess) (t : Tree) : Except Cause α :=
  match t with
  | .object ms =>
    match f.takeMembers e f.noSlots ms with
    | .error c => .error c
    | .ok slots => f.finish slots
  | .array ts =>
    match f.takeValues (listForm name f.length) e 0 ts with
    | .error c => .error c
    | .ok (a, []) => .ok a
    | .ok (_, _ :: _) => .error (e.cause f.length ts.length)
  | t => .error (.invalidType t.found name)

/-- Reads a record from a text. -/
def direct {α : Type} (f : Fields α) (name : String) (s : Bytes) : Reading α :=
  match skipBlanks s with
  | [] => .error (.next [] .endInValue)
  | b :: r =>
    if b = openBrace then
      match f.readMembers (r.length + 1) true f.noSlots r with
      | .error e => .error e
      | .ok (slots, r) =>
        match f.finish slots with
        | .error c => .error (.here (leaveObject r) c)
        | .ok a => .ok (a, leaveObject r)
    else if b = openBracket then
      match f.readValues (listForm name f.length) 0 r with
      | .error e => .error e
      | .ok (a, r) => (closeList r).map fun r => (a, r)
    else .error (mismatch name (b :: r))

/-- The reader of a record that messages call `struct` and its name. -/
def decoder {α β : Type} (f : Fields α) (name : String) (make : α → β) : Decoder β :=
  Decoder.map make ⟨f.direct ("struct " ++ name), f.ofTree ("struct " ++ name)⟩

end Fields

/-- Reads a whole text as one value. -/
def Decoder.decode {α : Type} (d : Decoder α) (text : Bytes) : Except Fault α :=
  match d.direct text with
  | .error f => .error f
  | .ok (a, r) =>
    match readEnd r with
    | .error f => .error f
    | .ok () => .ok a

end SourceDesk.Json
