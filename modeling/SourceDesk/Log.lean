import SourceDesk.Text.Padded

/-!
Log records: what the parts of the program note while they work, and which of it a
filter lets through.
-/

namespace SourceDesk.Log

/-- How much a record matters, most first. -/
inductive Level where
  | error
  | warn
  | info
  | debug
  | trace
  deriving DecidableEq, Repr

namespace Level

def all : List Level := [.error, .warn, .info, .debug, .trace]

def name : Level → String
  | .error => "ERROR"
  | .warn => "WARN"
  | .info => "INFO"
  | .debug => "DEBUG"
  | .trace => "TRACE"

/-- The place in the order, from one. -/
def rank : Level → Nat
  | .error => 1
  | .warn => 2
  | .info => 3
  | .debug => 4
  | .trace => 5

end Level

/-- The least level that is let through, or nothing at all. -/
inductive Filter where
  | off
  | upTo (level : Level)
  deriving DecidableEq, Repr

/-- Whether a filter lets a level through. -/
def Filter.admits : Filter → Level → Bool
  | .off, _ => false
  | .upTo most, level => level.rank ≤ most.rank

/-- Which part of the program made a record. -/
inductive Origin where
  | session
  | coordinator
  | command
  deriving DecidableEq, Repr

/-- How an origin is named in a log. -/
def Origin.name : Origin → String
  | .session => "transpile_session::session"
  | .coordinator => "transpile_session::coordinator"
  | .command => "transpile_session::translator::command"

structure Record where
  level : Level
  origin : Origin
  message : String
  deriving DecidableEq, Repr

namespace Record

/-- The width of the column of levels. -/
def levelWidth : Nat := 5

/-- The line of a record, after its time. -/
def line (r : Record) : String :=
  padded levelWidth r.level.name ++ " " ++ r.origin.name ++ ": " ++ r.message

end Record

end SourceDesk.Log
