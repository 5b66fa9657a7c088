import SourceDesk.Document.Set
import SourceDesk.Log
import SourceDesk.Translator.Process
import SourceDesk.Translator.Request

/-!
What can be seen from outside while the program works, besides its results.
-/

namespace SourceDesk

inductive Event where
  /-- A record was made. -/
  | logged (record : Log.Record)
  /-- A translator was asked. -/
  | submitted (commission : Commission)
  /-- A program was started, or could not be. -/
  | launched (launch : Launch)
  /-- A path was read. -/
  | read (path : Path) (data : Bytes)
  /-- A path could not be read. -/
  | unread (path : Path) (reason : String)
  /-- A document was written. -/
  | written (seat : Seat) (path : Path) (data : Bytes)
  /-- A document could not be written. -/
  | unwritten (seat : Seat) (path : Path) (data : Bytes) (reason : String)
  deriving DecidableEq, Repr

namespace Event

/-- A record of the session. -/
def session (level : Log.Level) (message : String) : Event := .logged ⟨level, .session, message⟩

/-- A record of the coordination of attempts to translate. -/
def coordinator (level : Log.Level) (message : String) : Event :=
  .logged ⟨level, .coordinator, message⟩

/-- A record of an external translator. -/
def command (level : Log.Level) (message : String) : Event := .logged ⟨level, .command, message⟩

def record? : Event → Option Log.Record
  | .logged r => some r
  | _ => none

def submitted? : Event → Option Commission
  | .submitted c => some c
  | _ => none

def launched? : Event → Option Launch
  | .launched l => some l
  | _ => none

end Event

end SourceDesk
