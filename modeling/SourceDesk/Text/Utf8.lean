import SourceDesk.Bytes

/-!
UTF-8. `encode` writes a text; `pieces` splits any byte string into scalars and
ill-formed sequences, from which come the strict reader `decode?`, the forgiving
reader `decodeLossy` and the length of the well-formed part.
-/

namespace SourceDesk.Utf8

/-- The bytes of a text. -/
def encode (s : String) : Bytes := s.toList.flatMap String.utf8EncodeChar

/-- One step through a byte string: a scalar, or the longest begun sequence that
no further byte could complete. -/
inductive Piece where
  | scalar (c : Char)
  | broken (bytes : Bytes)
  deriving DecidableEq, Repr

/-- A sequence that is not complete yet. Its next byte must lie between `low` and
`high`, and `more` bytes follow that one. -/
structure Pending where
  bits : Nat
  low : UInt8
  high : UInt8
  more : Nat
  taken : Bytes

/-- A byte where no sequence is open. The ranges of the second byte shut out
overlong forms, surrogates and values above U+10FFFF. -/
def start (b : UInt8) : List Piece × Option Pending :=
  if b < 0x80 then ([.scalar (Char.ofNat b.toNat)], none)
  else if b < 0xC2 then ([.broken [b]], none)
  else if b < 0xE0 then ([], some ⟨b.toNat % 32, 0x80, 0xBF, 0, [b]⟩)
  else if b = 0xE0 then ([], some ⟨0, 0xA0, 0xBF, 1, [b]⟩)
  else if b = 0xED then ([], some ⟨13, 0x80, 0x9F, 1, [b]⟩)
  else if b < 0xF0 then ([], some ⟨b.toNat % 16, 0x80, 0xBF, 1, [b]⟩)
  else if b = 0xF0 then ([], some ⟨0, 0x90, 0xBF, 2, [b]⟩)
  else if b < 0xF4 then ([], some ⟨b.toNat % 8, 0x80, 0xBF, 2, [b]⟩)
  else if b = 0xF4 then ([], some ⟨4, 0x80, 0x8F, 2, [b]⟩)
  else ([.broken [b]], none)

/-- A byte in any state. A byte that does not continue the open sequence ends it
as broken and is looked at afresh. -/
def step : Option Pending → UInt8 → List Piece × Option Pending
  | none, b => start b
  | some p, b =>
    if p.low ≤ b ∧ b ≤ p.high then
      let bits := p.bits * 64 + b.toNat % 64
      match p.more with
      | 0 => ([.scalar (Char.ofNat bits)], none)
      | n + 1 => ([], some ⟨bits, 0x80, 0xBF, n, p.taken ++ [b]⟩)
    else
      (.broken p.taken :: (start b).1, (start b).2)

/-- The pieces of a byte string whose earlier bytes left the state `st`. -/
def piecesFrom (st : Option Pending) : Bytes → List Piece
  | [] => st.toList.map fun p => .broken p.taken
  | b :: r => (step st b).1 ++ piecesFrom (step st b).2 r

/-- A byte string as scalars and broken sequences, in order. -/
def pieces (bs : Bytes) : List Piece := piecesFrom none bs

/-- The scalar of a piece, if it is one. -/
def Piece.scalar? : Piece → Option Char
  | .scalar c => some c
  | .broken _ => none

/-- The text of a well-formed byte string; nothing for any other. -/
def decode? (bs : Bytes) : Option String :=
  let ps := pieces bs
  if ps.all fun p => p.scalar?.isSome then some (String.ofList (ps.filterMap Piece.scalar?))
  else none

/-- Reads any byte string, with one U+FFFD for each broken sequence. -/
def decodeLossy (bs : Bytes) : String :=
  String.ofList ((pieces bs).map fun p => p.scalar?.getD (Char.ofNat 0xFFFD))

/-- The number of bytes before the first broken sequence. -/
def validLength (bs : Bytes) : Nat :=
  (((pieces bs).takeWhile fun p => p.scalar?.isSome).filterMap Piece.scalar?).foldl
    (fun n c => n + c.utf8Size) 0

end SourceDesk.Utf8
