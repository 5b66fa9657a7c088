import SourceDesk.Path

/-!
The ways in which an operation on a session can fail.
-/

namespace SourceDesk

inductive Failure where
  /-- A path could not be read or written. -/
  | storage (path : Path) (reason : String)
  /-- No document has the name. -/
  | notFound (name : String)
  /-- The catalog of languages is empty. -/
  | noLanguages
  /-- The catalog of languages cannot be had. -/
  | catalog (reason : String)
  /-- A configuration is no good. -/
  | settings (reason : String)
  deriving DecidableEq, Repr

/-- What is said about a failure. -/
def Failure.message : Failure → String
  | .storage path reason => "IO error on " ++ path.display ++ ": " ++ reason
  | .notFound name => "Document not found: " ++ name
  | .noLanguages => "No target languages available"
  | .catalog reason => "Language list unavailable: " ++ reason
  | .settings reason => "Configuration error: " ++ reason

end SourceDesk
