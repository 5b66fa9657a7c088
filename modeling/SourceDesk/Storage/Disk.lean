import SourceDesk.Storage.Basic

/-!
A disk: directories and files in one tree, a working directory, and paths that lead
through the tree step by step, with the errors of a system where every path may be
read and written by whoever asks.
-/

namespace SourceDesk

/-- Why the system refuses. -/
inductive DiskError where
  | missing
  | denied
  | taken
  | notDirectory
  | isDirectory
  | nameTooLong
  /-- A path with a zero byte never reaches the system. -/
  | zeroByte
  deriving DecidableEq, Repr

/-- How a refusal is worded. -/
def DiskError.message : DiskError → String
  | .missing => "No such file or directory (os error 2)"
  | .denied => "Permission denied (os error 13)"
  | .taken => "File exists (os error 17)"
  | .notDirectory => "Not a directory (os error 20)"
  | .isDirectory => "Is a directory (os error 21)"
  | .nameTooLong => "File name too long (os error 36)"
  | .zeroByte => "file name contained an unexpected NUL byte"

/-- What a place of the tree holds. -/
inductive Entry where
  | file (data : Bytes)
  | directory
  deriving DecidableEq, Repr

/-- A place of the tree: the names that lead to it from the root. -/
abbrev Place := List Bytes

/-- A tree and a working directory. The root is a directory in any case. -/
structure Disk where
  entries : List (Place × Entry)
  home : Place
  deriving DecidableEq, Repr

namespace Disk

/-- How long a name and a path may be. -/
def maxName : Nat := 255
def maxPath : Nat := 4095

def entry? (d : Disk) (p : Place) : Option Entry :=
  if p = [] then some .directory else d.entries.lookup p

/-- The tree with an entry put at a place. -/
def put (d : Disk) (p : Place) (e : Entry) : Disk :=
  if (d.entries.lookup p).isSome then
    { d with entries := d.entries.map fun q => if q.1 = p then (p, e) else q }
  else { d with entries := d.entries ++ [(p, e)] }

/-- Goes from a directory along names, through directories only; what the last name
leads to may be a file. -/
def walk (d : Disk) : Place → List Bytes → Except DiskError Place
  | at_, [] => .ok at_
  | at_, name :: rest =>
    match d.entry? at_ with
    | none => .error .missing
    | some (.file _) => .error .notDirectory
    | some .directory =>
      if name = Path.dot then d.walk at_ rest
      else if name = Path.dotDot then d.walk at_.dropLast rest
      else if maxName < name.length then .error .nameTooLong
      else if (d.entry? (at_ ++ [name])).isNone then .error .missing
      else d.walk (at_ ++ [name]) rest

/-- The names of a path, dots included. -/
def steps (p : Path) : List Bytes := p.segments.filter (· ≠ [])

/-- Where a path starts. -/
def base (d : Disk) (p : Path) : Place := if p.isAbsolute then [] else d.home

/-- Whether a path ends in a slash, so that it can only lead to a directory. -/
def endsInSlash (p : Path) : Bool := p.bytes.getLast? == some Path.slash

/-- What is wrong with a path before any step is taken. -/
def refusal? (p : Path) : Option DiskError :=
  if 0 ∈ p.bytes then some .zeroByte
  else if p.bytes = [] then some .missing
  else if maxPath < p.bytes.length then some .nameTooLong
  else none

/-- The place that a path leads to. -/
def find (d : Disk) (p : Path) : Except DiskError Place :=
  match refusal? p with
  | some e => .error e
  | none =>
    match d.walk (d.base p) (steps p) with
    | .error e => .error e
    | .ok place =>
      match d.entry? place with
      | some (.file _) => if endsInSlash p then .error .notDirectory else .ok place
      | _ => .ok place

/-- The directory that holds what a path names, and the name; no name if the path
ends in a dot, two dots or a root. -/
def findParent (d : Disk) (p : Path) : Except DiskError (Place × Option Bytes) :=
  match refusal? p with
  | some e => .error e
  | none =>
    let parent (names : List Bytes) : Except DiskError Place :=
      match d.walk (d.base p) names with
      | .error e => .error e
      | .ok place => if d.entry? place = some .directory then .ok place else .error .notDirectory
    match (steps p).reverse with
    | [] => .ok (d.base p, none)
    | last :: before =>
      match parent before.reverse with
      | .error e => .error e
      | .ok place => .ok (place, if last = Path.dot ∨ last = Path.dotDot then none else some last)

/-- The contents of the file that a path leads to. -/
def readFile (d : Disk) (p : Path) : Except DiskError Bytes :=
  match d.find p with
  | .error e => .error e
  | .ok place =>
    match d.entry? place with
    | some (.file data) => .ok data
    | some .directory => .error .isDirectory
    | none => .error .missing

/-- Overwrites or creates the file that a path names, in a directory that is there. -/
def overwrite (d : Disk) (p : Path) (data : Bytes) : Except DiskError Disk :=
  match d.findParent p with
  | .error e => .error e
  | .ok (_, none) => .error .isDirectory
  | .ok (dir, some name) =>
    if endsInSlash p then .error .isDirectory
    else if maxName < name.length then .error .nameTooLong
    else
      match d.entry? (dir ++ [name]) with
      | some .directory => .error .isDirectory
      | _ => .ok (d.put (dir ++ [name]) (.file data))

/-- Creates the directory that a path names, in a directory that is there. -/
def makeDirectory (d : Disk) (p : Path) : Except DiskError Disk :=
  match d.findParent p with
  | .error e => .error e
  | .ok (_, none) => .error .taken
  | .ok (dir, some name) =>
    if maxName < name.length then .error .nameTooLong
    else if (d.entry? (dir ++ [name])).isSome then .error .taken
    else .ok (d.put (dir ++ [name]) .directory)

def isDirectory (d : Disk) (p : Path) : Bool :=
  match d.find p with
  | .ok place => d.entry? place == some .directory
  | .error _ => false

/-- Creates the directory that a path names, unless there is one already. -/
def settle (d : Disk) (p : Path) : Disk × Except DiskError Unit :=
  match d.makeDirectory p with
  | .ok d => (d, .ok ())
  | .error e => if d.isDirectory p then (d, .ok ()) else (d, .error e)

/-- Creates the directory that a path names and those above it, as far as they are
missing. A directory that is there already is no error. Each path above is shorter
by a component, so their number is fuel enough. -/
def makeDirectories : (fuel : Nat) → Disk → Path → Disk × Except DiskError Unit
  | 0, d, _ => (d, .error .missing)
  | fuel + 1, d, p =>
    if p.isEmpty then (d, .ok ())
    else
      match d.makeDirectory p with
      | .error .missing =>
        match p.parent? with
        | none => (d, .error .missing)
        | some above =>
          match makeDirectories fuel d above with
          | (d, .error e) => (d, .error e)
          | (d, .ok ()) => d.settle p
      | _ => d.settle p

/-- Writes a file, after the directories above it. -/
def writeFile (d : Disk) (p : Path) (data : Bytes) : Disk × Except DiskError Unit :=
  let parents : Disk × Except DiskError Unit :=
    match p.parent? with
    | none => (d, .ok ())
    | some above => makeDirectories (above.components.length + 1) d above
  match parents with
  | (d, .error e) => (d, .error e)
  | (d, .ok ()) =>
    match d.overwrite p data with
    | .error e => (d, .error e)
    | .ok d => (d, .ok ())

/-- A disk as storage. -/
def storage : Storage Disk where
  read d p := (d.readFile p).mapError DiskError.message
  write d p data :=
    let (d, done) := d.writeFile p data
    (d, done.mapError DiskError.message)

/-- Why a program cannot be started, given that none of the files can be run: a path
with a slash leads nowhere or to what is no program, and a bare name is looked for in
places outside the tree. -/
def startFailure (d : Disk) (program : Path) : String :=
  if 0 ∈ program.bytes then "nul byte found in provided data"
  else if Path.slash ∈ program.bytes then
    match d.find program with
    | .error e => e.message
    | .ok _ => DiskError.denied.message
  else if maxName < program.bytes.length then DiskError.nameTooLong.message
  else if program.bytes = Path.dot ∨ program.bytes = Path.dotDot then DiskError.denied.message
  else DiskError.missing.message

/-- The files below the working directory, by their paths from it. -/
def files (d : Disk) : List (Path × Bytes) :=
  d.entries.filterMap fun (place, e) =>
    match e with
    | .directory => none
    | .file data =>
      if d.home.isPrefixOf place then
        some (Path.ofComponents ((place.drop d.home.length).map .normal), data)
      else none

end Disk

end SourceDesk
