import SourceDesk.Storage.Basic

/-!
Files in memory, found by the exact bytes of their paths. Single paths can be made to
refuse being read or being written.
-/

namespace SourceDesk

structure Memory where
  files : List (Path × Bytes)
  unreadable : List (Path × String)
  unwritable : List (Path × String)
  deriving DecidableEq, Repr

namespace Memory

/-- A list of pairs with a value put under a key, in place of an older one. -/
def assign {α : Type} (pairs : List (Path × α)) (p : Path) (a : α) : List (Path × α) :=
  if (pairs.lookup p).isSome then pairs.map fun q => if q.1 = p then (p, a) else q
  else pairs ++ [(p, a)]

/-- A list of pairs without those under a key. -/
def release {α : Type} (pairs : List (Path × α)) (p : Path) : List (Path × α) :=
  pairs.filter fun q => q.1 ≠ p

def ofFiles (files : List (Path × Bytes)) : Memory :=
  ⟨files.foldl (fun fs f => assign fs f.1 f.2) [], [], []⟩

/-- Creates or overwrites a file, whatever was denied. -/
def put (m : Memory) (p : Path) (data : Bytes) : Memory := { m with files := assign m.files p data }

def read (m : Memory) (p : Path) : Except String Bytes :=
  match m.unreadable.lookup p, m.files.lookup p with
  | some reason, _ => .error reason
  | none, some data => .ok data
  | none, none => .error "no such file"

def write (m : Memory) (p : Path) (data : Bytes) : Memory × Except String Unit :=
  match m.unwritable.lookup p with
  | some reason => (m, .error reason)
  | none => (m.put p data, .ok ())

/-- Memory as storage. -/
def storage : Storage Memory := ⟨read, write⟩

def denyRead (m : Memory) (p : Path) (reason : String) : Memory :=
  { m with unreadable := assign m.unreadable p reason }

def denyWrite (m : Memory) (p : Path) (reason : String) : Memory :=
  { m with unwritable := assign m.unwritable p reason }

/-- Takes back whatever was denied for a path. -/
def allow (m : Memory) (p : Path) : Memory :=
  { m with unreadable := release m.unreadable p, unwritable := release m.unwritable p }

end Memory

end SourceDesk
