import SourceDesk.Diagnostic
import SourceDesk.Event

/-!
Translators and catalogs of languages, as functions from what they are asked to what
comes of it.
-/

namespace SourceDesk

/-- Why nothing came back. -/
inductive Complaint where
  /-- The sources are at fault, as the translator says. -/
  | diagnosed (diagnostic : Diagnostic)
  /-- Something else went wrong. -/
  | plain (message : String)
  deriving DecidableEq, Repr

def Complaint.message : Complaint → String
  | .diagnosed d => d.message
  | .plain m => m

/-- The diagnostic of a complaint; one that is no diagnostic has no place. -/
def Complaint.diagnostic : Complaint → Diagnostic
  | .diagnosed d => d
  | .plain m => .unlocated m

/-- What comes of a commission. -/
inductive Reply where
  | targets (texts : List NamedText)
  | refused (complaint : Complaint)
  /-- The translator broke down, perhaps with a word. -/
  | crashed (message : Option String)
  deriving DecidableEq, Repr

/-- A reply, and what was seen meanwhile. -/
structure Answer where
  reply : Reply
  events : List Event
  deriving DecidableEq, Repr

abbrev Translator := Commission → Answer

/-- What comes of the question for languages, and what was seen meanwhile. -/
structure Listing where
  languages : Except Complaint (List String)
  events : List Event

namespace Listing

/-- A catalog that is at hand. -/
def fixed (languages : List String) : Listing := ⟨.ok languages, []⟩

end Listing

end SourceDesk
