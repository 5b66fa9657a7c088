import SourceDesk.Text.Quoted
import SourceDesk.Text.Utf8

/-!
Paths. A path is any byte string; it is understood through its `components`, in
which repeated slashes and inner dots leave no trace. Two paths are the same place
in a listing when their components agree, while storage is handed the bytes.
-/

namespace SourceDesk

/-- A path, as its bytes. -/
structure Path where
  bytes : Bytes
  deriving DecidableEq, Repr

namespace Path

/-- What a path is made of. -/
inductive Component where
  /-- The slash that an absolute path starts with. -/
  | root
  /-- A dot that a relative path starts with. -/
  | current
  /-- Two dots. -/
  | parent
  /-- Any other name. -/
  | normal (name : Bytes)
  deriving DecidableEq, Repr

/-- The byte between names. -/
def slash : UInt8 := 0x2F

/-- The name of a directory in itself. -/
def dot : Bytes := [0x2E]

/-- The name of a directory's parent in it. -/
def dotDot : Bytes := [0x2E, 0x2E]

/-- The path with the bytes of a text. -/
def ofText (s : String) : Path := ⟨Utf8.encode s⟩

/-- The path as messages show it, with U+FFFD where its bytes are no text. -/
def display (p : Path) : String := Utf8.decodeLossy p.bytes

/-- The path in quotes. -/
def quoted (p : Path) : String := Quoted.ofBytes p.bytes

/-- The empty path. -/
def empty : Path := ⟨[]⟩

def isEmpty (p : Path) : Bool := p.bytes.isEmpty

def isAbsolute (p : Path) : Bool := p.bytes.head? == some slash

/-- The byte strings between the slashes, empty ones included. -/
def split : Bytes → List Bytes
  | [] => [[]]
  | b :: r =>
    if b = slash then [] :: split r
    else
      match split r with
      | [] => [[b]]
      | s :: rest => (b :: s) :: rest

/-- The byte strings between the slashes. -/
def segments (p : Path) : List Bytes := split p.bytes

/-- What a segment stands for; empty ones and dots stand for nothing. -/
def component? (s : Bytes) : Option Component :=
  if s = [] ∨ s = dot then none
  else if s = dotDot then some .parent
  else some (.normal s)

/-- What a path starts with, besides names. -/
def start (p : Path) : List Component :=
  if p.isAbsolute then [.root]
  else if p.segments.head? = some dot then [.current]
  else []

/-- The components of a path. -/
def components (p : Path) : List Component := p.start ++ p.segments.filterMap component?

/-- The last name of a path, unless the path ends in a root, a dot or two dots. -/
def fileName? (p : Path) : Option Bytes :=
  match p.components.getLast? with
  | some (.normal name) => some name
  | _ => none

/-- The name of the document that a path holds: its last name, or else all of it. -/
def documentName (p : Path) : String := Utf8.decodeLossy (p.fileName?.getD p.bytes)

/-- The bytes of a component. -/
def Component.bytes : Component → Bytes
  | .root => [slash]
  | .current => dot
  | .parent => dotDot
  | .normal name => name

/-- A path with the given components. -/
def ofComponents : List Component → Path
  | .root :: cs => ⟨slash :: List.intercalate [slash] (cs.map Component.bytes)⟩
  | cs => ⟨List.intercalate [slash] (cs.map Component.bytes)⟩

/-- Segments without those at their end that stand for nothing. -/
def trimSegments (segs : List Bytes) : List Bytes :=
  (segs.reverse.dropWhile fun s => (component? s).isNone).reverse

/-- The segments behind what a path starts with. -/
def body (p : Path) : List Bytes := if p.start = [] then p.segments else p.segments.tail

/-- The directory that a path names something in: the path without its last name.
What stands before that name keeps its bytes, inner dots and repeated slashes too,
for the length of a path counts where it is looked up. A root has no such
directory, and neither has the empty path. -/
def parent? (p : Path) : Option Path :=
  match trimSegments p.body with
  | [] => if p.start = [.current] then some empty else none
  | names =>
    let above := trimSegments names.dropLast
    if p.start = [.root] then some ⟨slash :: List.intercalate [slash] above⟩
    else if p.start = [.current] then some ⟨List.intercalate [slash] (dot :: above)⟩
    else some ⟨List.intercalate [slash] above⟩

/-- A path seen from a directory. An absolute path stays what it is, and from the
empty directory so does every path. -/
def join (dir name : Path) : Path :=
  if name.isAbsolute then name
  else
    match dir.bytes.getLast? with
    | none => name
    | some last =>
      if last = slash then ⟨dir.bytes ++ name.bytes⟩ else ⟨dir.bytes ++ slash :: name.bytes⟩

/-- Whether a path is relative and made of names only, so that it stays inside
whatever directory it is seen from. -/
def isPlainRelative (p : Path) : Bool :=
  !p.isEmpty && p.components.all fun c => match c with
    | .normal _ => true
    | _ => false

/-- The same place: the components agree. -/
def same (p q : Path) : Bool := p.components == q.components

end Path

end SourceDesk
