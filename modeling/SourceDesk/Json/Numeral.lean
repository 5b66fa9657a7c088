import SourceDesk.Json.Scan

/-!
Numbers in a JSON text. A numeral without point and exponent is an integer while it
fits in 64 bits. Any other is a floating point number: its leading digits make a
significand below `2 ^ 64`, the remaining ones only count as places, and the
significand is then scaled by a power of ten, with one rounding for each factor.
-/

namespace SourceDesk.Json

def isDigit (b : UInt8) : Bool := 0x30 ≤ b && b ≤ 0x39

/-- The value of a digit. -/
def digitValue (b : UInt8) : Nat := b.toNat - 0x30

def zeroDigit : UInt8 := 0x30
def point : UInt8 := 0x2E
def plus : UInt8 := 0x2B

/-- Whether a byte opens an exponent. -/
def isExponentMark (b : UInt8) : Bool := b == 0x65 || b == 0x45

/-- The text after its leading digits. -/
def skipDigits (s : Bytes) : Bytes := s.dropWhile isDigit

/-- The number of leading digits. -/
def countDigits (s : Bytes) : Nat := (s.takeWhile isDigit).length

/-- What exceeds every natural of 64 bits. -/
def wordSize : Nat := Nat.pow 2 64

/-- Takes leading digits into a significand as long as it stays below `2 ^ 64`;
answers it, the number of digits taken and the rest. -/
def takeDigits (significand : Nat) : Bytes → Nat × Nat × Bytes
  | [] => (significand, 0, [])
  | b :: r =>
    if isDigit b && significand * 10 + digitValue b < wordSize then
      let (s, n, rest) := takeDigits (significand * 10 + digitValue b) r
      (s, n + 1, rest)
    else (significand, 0, b :: r)

/-- The greatest power of ten that is applied in one factor. -/
def maxFactor : Nat := 308

/-- A number divided by `10 ^ 308` a number of times, or until nothing is left. -/
def divideRepeatedly : Nat → Double → Double
  | 0, x => x
  | n + 1, x =>
    if x.isZero then x
    else
      match (Double.powerOfTen? maxFactor).bind x.div? with
      | some y => divideRepeatedly n y
      | none => x

/-- A significand scaled by a power of ten; nothing if the result is not finite. -/
def scaled? (significand : Nat) (exponent : Int) : Option Double :=
  match Double.nearest? significand 1 with
  | none => none
  | some x =>
    if 0 ≤ exponent then
      if exponent ≤ maxFactor then (Double.powerOfTen? exponent.toNat).bind x.mul?
      else if x.isZero then some x else none
    else
      let e := (-exponent).toNat
      let steps := (e - 1) / maxFactor
      let y := divideRepeatedly steps x
      (Double.powerOfTen? (e - steps * maxFactor)).bind y.div?

/-- The floating point number of a significand and an exponent; `rest` is left. -/
def finishReal (negative : Bool) (significand : Nat) (exponent : Int) (rest : Bytes) :
    Reading Number :=
  match scaled? significand exponent with
  | some x => .ok (.real negative x, rest)
  | none => .error (.here rest .numberOutOfRange)

/-- The greatest exponent that is still counted. -/
def maxExponent : Nat := Nat.pow 2 31 - 1

/-- Reads the digits of an exponent; `none` with what is left after the digit that
makes it too large. -/
def readExponentDigits (e : Nat) : Bytes → Option Nat × Bytes
  | [] => (some e, [])
  | b :: r =>
    if isDigit b then
      if maxExponent < e * 10 + digitValue b then (none, r)
      else readExponentDigits (e * 10 + digitValue b) r
    else (some e, b :: r)

/-- Reads an exponent after its mark; `before` is the exponent that the digits gave. -/
def readExponent (negative : Bool) (significand : Nat) (before : Int) (s : Bytes) :
    Reading Number :=
  let (down, s) :=
    match s with
    | b :: r => if b = plus then (false, r) else if b = minus then (true, r) else (false, s)
    | [] => (false, [])
  match s with
  | [] => .error (.here [] .endInValue)
  | b :: r =>
    if !isDigit b then .error (.here r .invalidNumber)
    else
      match readExponentDigits (digitValue b) r with
      | (none, rest) =>
        if significand ≠ 0 && !down then .error (.here rest .numberOutOfRange)
        else .ok (.real negative Double.zero, skipDigits rest)
      | (some e, rest) =>
        finishReal negative significand (if down then before - e else before + e) rest

/-- Goes on after the digits of a fraction, or after those that did not fit. -/
def readScale (negative : Bool) (significand : Nat) (before : Int) (s : Bytes) : Reading Number :=
  match s with
  | b :: r =>
    if isExponentMark b then readExponent negative significand before r
    else finishReal negative significand before s
  | [] => finishReal negative significand before []

/-- Reads a fraction after its point. It needs a digit. -/
def readFraction (negative : Bool) (significand : Nat) (before : Int) (s : Bytes) :
    Reading Number :=
  if countDigits s = 0 then
    .error (.next s (if s.isEmpty then .endInValue else .invalidNumber))
  else
    let (significand, taken, rest) := takeDigits significand s
    readScale negative significand (before - taken) (skipDigits rest)

/-- The number of an integer numeral that fits in 64 bits. Minus zero, and what is
below the least negative integer of 64 bits, are floating point numbers. -/
def integer (negative : Bool) (n : Nat) : Number :=
  if !negative then .nat n
  else if n = 0 ∨ Nat.pow 2 63 < n then .real true ((Double.nearest? n 1).getD Double.zero)
  else .negative n

/-- Goes on after the whole part of a numeral that fitted in 64 bits. -/
def readAfterWhole (negative : Bool) (n : Nat) (s : Bytes) : Reading Number :=
  match s with
  | b :: r =>
    if b = point then readFraction negative n 0 r
    else if isExponentMark b then readExponent negative n 0 r
    else .ok (integer negative n, s)
  | [] => .ok (integer negative n, [])

/-- Goes on after a whole part of which `extra` digits did not fit. -/
def readAfterLong (negative : Bool) (n extra : Nat) (s : Bytes) : Reading Number :=
  match s with
  | b :: r =>
    if b = point then readFraction negative n extra r
    else readScale negative n extra s
  | [] => readScale negative n extra []

/-- Reads a numeral after its sign. A leading zero stands alone. -/
def readMagnitude (negative : Bool) (s : Bytes) : Reading Number :=
  match s with
  | [] => .error (.here [] .endInValue)
  | b :: r =>
    if !isDigit b then .error (.here r .invalidNumber)
    else if b = zeroDigit then
      if 0 < countDigits r then .error (.next r .invalidNumber) else readAfterWhole negative 0 r
    else
      let (n, _, rest) := takeDigits (digitValue b) r
      let extra := countDigits rest
      if extra = 0 then readAfterWhole negative n rest
      else readAfterLong negative n extra (skipDigits rest)

/-- Reads a number. -/
def readNumber (s : Bytes) : Reading Number :=
  match s with
  | b :: r => if b = minus then readMagnitude true r else readMagnitude false s
  | [] => .error (.here [] .endInValue)

/-- Passes over an exponent after its mark. -/
def skipExponent (s : Bytes) : Except Fault Bytes :=
  let s :=
    match s with
    | b :: r => if b = plus ∨ b = minus then r else s
    | [] => []
  match s with
  | [] => .error (.here [] .invalidNumber)
  | b :: r => if isDigit b then .ok (skipDigits r) else .error (.here r .invalidNumber)

/-- Passes over what may follow the whole part of a number. -/
def skipAfterWhole (s : Bytes) : Except Fault Bytes :=
  match s with
  | b :: r =>
    if b = point then
      if countDigits r = 0 then .error (.next r .invalidNumber)
      else
        match skipDigits r with
        | e :: t => if isExponentMark e then skipExponent t else .ok (e :: t)
        | [] => .ok []
    else if isExponentMark b then skipExponent r
    else .ok s
  | [] => .ok []

/-- Passes over a number after its sign, without a look at its size. -/
def skipMagnitude (s : Bytes) : Except Fault Bytes :=
  match s with
  | [] => .error (.here [] .invalidNumber)
  | b :: r =>
    if !isDigit b then .error (.here r .invalidNumber)
    else if b = zeroDigit then
      if 0 < countDigits r then .error (.next r .invalidNumber) else skipAfterWhole r
    else skipAfterWhole (skipDigits r)

/-- Passes over a number. -/
def skipNumber (s : Bytes) : Except Fault Bytes :=
  match s with
  | b :: r => if b = minus then skipMagnitude r else skipMagnitude s
  | [] => .error (.here [] .invalidNumber)

end SourceDesk.Json
