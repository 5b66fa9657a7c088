import SourceDesk.Diagnostic
import SourceDesk.Document.Set
import SourceDesk.Event
import SourceDesk.Failure
import SourceDesk.Text.Coordinates

/-!
A session: the sources that were loaded, the targets that the translator made of them last, and
what is remembered of that. Editing changes a session only; storage is changed by saving.
-/

namespace SourceDesk

structure Session where
  sources : DocumentSet
  targets : DocumentSet
  /-- The language that was asked for last. -/
  language : Option String
  /-- The hint for names that was given last. -/
  namespaceHint : String
  lastError : Option Diagnostic
  deriving DecidableEq, Repr

/-- What an operation makes of a session: the session it leaves, its result, and what
was seen meanwhile. -/
structure Step (α : Type) where
  session : Session
  result : Except Failure α
  events : List Event

/-- A place in a loaded source. -/
structure Location where
  document : String
  offset : UInt64
  deriving DecidableEq, Repr

namespace Session

/-- Nothing loaded, nothing translated. -/
def empty : Session := ⟨.empty, .empty, none, "", none⟩

def shelf (s : Session) : Shelf → DocumentSet
  | .sources => s.sources
  | .targets => s.targets

/-- The session with another set on a shelf. -/
def setShelf (s : Session) (which : Shelf) (set : DocumentSet) : Session :=
  match which with
  | .sources => { s with sources := set }
  | .targets => { s with targets := set }

/-! ### Editing -/

/-- Takes a new text for a document. The result says whether it was another one. -/
def commit (s : Session) (which : Shelf) (name content : String) : Step Bool :=
  match (s.shelf which).get? name with
  | none => ⟨s, .error (.notFound name), []⟩
  | some d =>
    if d.content = content then ⟨s, .ok false, []⟩
    else
      ⟨s.setShelf which ((s.shelf which).modify name fun d => d.commit content), .ok true,
        [.session .debug ("committed edit to " ++ name)]⟩

/-- The note of a replacement of all targets. -/
def replacementNote (before after : DocumentSet) : Event :=
  .session .debug
    ("replacing " ++ toString before.size ++ " target(s) with " ++ toString after.size)

/-- Puts another set in place of the targets. -/
def replaceTargets (s : Session) (targets : DocumentSet) : Step Unit :=
  ⟨{ s with targets }, .ok (), [replacementNote s.targets targets]⟩

/-! ### Questions -/

/-- The name of the source that was loaded first. -/
def firstSourceName? (s : Session) : Option String := s.sources.first?.map Document.name

/-- The names of the documents with changes that are not stored. -/
def dirtyNames (s : Session) (which : Shelf) : List String :=
  ((s.shelf which).documents.filter Document.dirty).map Document.name

/-- Whether any document has changes that are not stored. -/
def isDirty (s : Session) : Bool := (s.sources.documents ++ s.targets.documents).any Document.dirty

/-- The message of the last error. -/
def status? (s : Session) : Option String := s.lastError.map Diagnostic.message

/-- The place of a position in the loaded sources. The offset stays what it is. -/
def resolve (s : Session) (p : SourcePosition) : Except Failure Location :=
  if s.sources.contains p.source then .ok ⟨p.source, p.offset⟩ else .error (.notFound p.source)

/-- The place of the last error, if it has one. -/
def locate? (s : Session) : Option (Except Failure Location) :=
  (s.lastError.bind Diagnostic.position).map s.resolve

/-- Line and column of a place, in the text as it is now. -/
def coordinates? (s : Session) (l : Location) : Option Coordinates :=
  (s.sources.get? l.document).map fun d => .ofOffset d.content l.offset.toNat

end Session

end SourceDesk
