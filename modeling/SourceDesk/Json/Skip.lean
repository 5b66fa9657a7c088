import SourceDesk.Json.Numeral

/-!
Passing over a value that nobody asked for. It must be JSON, but its strings may hold
any bytes, its numbers may have any size, and it may be nested to any depth.
-/

namespace SourceDesk.Json

/-- What a value is enclosed in. -/
inductive Frame where
  | list
  | object
  deriving DecidableEq, Repr

namespace Frame

def close : Frame → UInt8
  | .list => closeBracket
  | .object => closeBrace

/-- The fault of a text that ends inside. -/
def ended : Frame → Cause
  | .list => .endInList
  | .object => .endInObject

/-- The fault of a byte that neither goes on nor closes. -/
def unseparated : Frame → Cause
  | .list => .expectedCommaOrBracket
  | .object => .expectedCommaOrBrace

end Frame

/-- Passes over a key and its colon. -/
def skipKey (s : Bytes) : Except Fault Bytes :=
  match skipBlanks s with
  | [] => .error (.next [] .endInObject)
  | b :: r =>
    if b ≠ quote then .error (.next (b :: r) .keyNotString)
    else
      match skipString (r.length + 1) r with
      | .error f => .error f
      | .ok r =>
        match skipBlanks r with
        | [] => .error (.next [] .endInObject)
        | b :: r => if b = colon then .ok r else .error (.next (b :: r) .expectedColon)

/-- Passes over a literal, a number or a string. -/
def skipScalar (s : Bytes) : Except Fault Bytes :=
  match s with
  | [] => .error (.next [] .endInValue)
  | b :: r =>
    if b = 0x6E then readLiteral nullTail r
    else if b = 0x74 then readLiteral trueTail r
    else if b = 0x66 then readLiteral falseTail r
    else if b = minus || isDigit b then skipNumber s
    else if b = quote then skipString (r.length + 1) r
    else .error (.next s .expectedValue)

/-- Where a walk over nested values stands. -/
inductive Stage where
  /-- Before a value. -/
  | value
  /-- Behind the opening byte of the innermost frame. -/
  | opened
  /-- Before a member of the innermost frame. -/
  | member
  /-- Behind a value. -/
  | after
  deriving DecidableEq, Repr

/-- Walks on until the outermost value is over; `frames` are the open ones, innermost
first. Every four steps take a byte at least. -/
def skipFrom : (fuel : Nat) → Stage → List Frame → Bytes → Except Fault Bytes
  | 0, _, _, _ => .error (.here [] .endInValue)
  | fuel + 1, .value, frames, s =>
    match skipBlanks s with
    | [] => .error (.next [] .endInValue)
    | b :: r =>
      if b = openBracket then skipFrom fuel .opened (.list :: frames) r
      else if b = openBrace then skipFrom fuel .opened (.object :: frames) r
      else
        match skipScalar (b :: r) with
        | .error f => .error f
        | .ok r => skipFrom fuel .after frames r
  | _ + 1, .opened, [], s => .ok s
  | fuel + 1, .opened, f :: frames, s =>
    match skipBlanks s with
    | [] => .error (.next [] f.ended)
    | b :: r =>
      if b = f.close then skipFrom fuel .after frames r
      else skipFrom fuel .member (f :: frames) (b :: r)
  | fuel + 1, .member, .object :: frames, s =>
    match skipKey s with
    | .error f => .error f
    | .ok r => skipFrom fuel .value (.object :: frames) r
  | fuel + 1, .member, frames, s => skipFrom fuel .value frames s
  | _ + 1, .after, [], s => .ok s
  | fuel + 1, .after, f :: frames, s =>
    match skipBlanks s with
    | [] => .error (.next [] f.ended)
    | b :: r =>
      if b = comma then skipFrom fuel .member (f :: frames) r
      else if b = f.close then skipFrom fuel .after frames r
      else .error (.next (b :: r) f.unseparated)

/-- Passes over one value. -/
def skipValue (s : Bytes) : Except Fault Bytes := skipFrom (4 * s.length + 4) .value [] s

end SourceDesk.Json
