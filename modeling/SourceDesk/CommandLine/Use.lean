import SourceDesk.CommandLine.Switch

/-!
The words of a command line as uses of switches. A word that starts with two hyphens
names a switch, one that starts with a single hyphen gives letters of switches; a
value stands in the same word or is the next one.
-/

namespace SourceDesk.CommandLine

/-- What a word asks for. -/
inductive Use where
  | notice (n : Notice)
  | toggle (t : Toggle)
  | assign (s : Slot) (value : Bytes)
  /-- Something that no command line may hold. -/
  | misuse
  deriving DecidableEq, Repr

/-- What a word looks like. -/
inductive Word where
  /-- Two hyphens: no switch follows any more. -/
  | ending
  | named (name : Bytes) (value : Option Bytes)
  | letters (bytes : Bytes)
  /-- A word that looks like no switch. A lone hyphen is one. -/
  | plain
  deriving DecidableEq, Repr

namespace Word

def hyphen : UInt8 := 0x2D

/-- The byte between a switch and a value in the same word. -/
def equalsSign : UInt8 := 0x3D

def ofBytes : Bytes → Word
  | [] => .plain
  | b :: r =>
    if b ≠ hyphen ∨ r = [] then .plain
    else if r.head? ≠ some hyphen then .letters r
    else if r = [hyphen] then .ending
    else
      let spelled := r.drop 1
      .named (spelled.takeWhile (· ≠ equalsSign))
        ((spelled.dropWhile (· ≠ equalsSign)).tail?)

end Word

/-- The uses in a word, and the switch that waits for its value behind it. -/
abbrev Uses := List Use × Option Slot

namespace Use

/-- A named switch, with a value if one stands in the word. -/
def ofName (name : Bytes) (value : Option Bytes) : Uses :=
  match Switch.ofName? name, value with
  | some (.notice n), none => ([.notice n], none)
  | some (.toggle t), none => ([.toggle t], none)
  | some (.slot s), some v => ([.assign s v], none)
  | some (.slot s), none => ([], some s)
  | _, _ => ([.misuse], none)

/-- The value behind a letter in the same word, without a sign between them. -/
def attached? : Bytes → Option Bytes
  | [] => none
  | b :: r => if b = Word.equalsSign then some r else some (b :: r)

/-- Letters of switches. What follows the first that takes a value is the value. -/
def ofLetters : Bytes → Uses
  | [] => ([], none)
  | b :: r =>
    match Switch.ofLetter? b with
    | some (.notice n) => (.notice n :: (ofLetters r).1, (ofLetters r).2)
    | some (.toggle t) => (.toggle t :: (ofLetters r).1, (ofLetters r).2)
    | some (.slot s) =>
      match attached? r with
      | some v => ([.assign s v], none)
      | none => ([], some s)
    | none => ([.misuse], none)

/-- The uses in the words of a command line, given the switch that waits for a value. -/
def ofWordsFrom : Option Slot → List Bytes → List Use
  | none, [] => []
  | some _, [] => [.misuse]
  | some s, w :: ws =>
    if s.takesAnyWord ∨ Word.ofBytes w = .plain then .assign s w :: ofWordsFrom none ws
    else [.misuse]
  | none, w :: ws =>
    match Word.ofBytes w with
    | .ending => if ws = [] then [] else [.misuse]
    | .plain => [.misuse]
    | .named name value => (ofName name value).1 ++ ofWordsFrom (ofName name value).2 ws
    | .letters bytes => (ofLetters bytes).1 ++ ofWordsFrom (ofLetters bytes).2 ws

/-- The uses in the words of a command line. -/
def ofWords (words : List Bytes) : List Use := ofWordsFrom none words

end Use

end SourceDesk.CommandLine
