import SourceDesk.Session.Basic
import SourceDesk.Translator.Basic

/-!
Translating the sources of a session. A translator is always given all of them. Its
targets take the place of the old ones; if it has none to give, for whatever reason,
the old ones go and the error is remembered.
-/

namespace SourceDesk

/-- What an attempt to translate came to. -/
inductive Outcome where
  | success (targets : List NamedText)
  | failure (diagnostic : Diagnostic)
  deriving DecidableEq, Repr

namespace Outcome

def isSuccess : Outcome → Bool
  | .success _ => true
  | .failure _ => false

def diagnostic? : Outcome → Option Diagnostic
  | .success _ => none
  | .failure d => some d

/-- What a reply amounts to. Only a diagnostic of the translator itself has a place. -/
def ofReply : Reply → Outcome
  | .targets texts => .success texts
  | .refused complaint => .failure complaint.diagnostic
  | .crashed message =>
    .failure (.unlocated ("internal translator error: " ++ message.getD "unknown panic"))

end Outcome

/-- An attempt to translate that took place. -/
structure Attempt where
  session : Session
  outcome : Outcome
  events : List Event

namespace Catalog

/-- The languages of a catalog. -/
def languages (l : Listing) : Except Failure (List String) :=
  match l.languages with
  | .ok names => .ok names
  | .error complaint => .error (.catalog complaint.message)

/-- The first language of a catalog. -/
def default (l : Listing) : Except Failure String :=
  match languages l with
  | .error failure => .error failure
  | .ok [] => .error .noLanguages
  | .ok (first :: _) => .ok first

end Catalog

namespace Session

/-- Installs what an attempt came to. -/
def install (s : Session) : Outcome → Session
  | .success texts =>
    { s with targets := .ofList (texts.map Document.generated), lastError := none }
  | .failure d => { s with targets := .empty, lastError := some d }

/-- The notes of an installation in place of some targets. -/
def installationNotes (before : DocumentSet) : Outcome → List Event
  | .success texts =>
    let set := DocumentSet.ofList (texts.map Document.generated)
    (if set.size = texts.length then []
      else [.coordinator .warn "translator returned duplicate output names; later entries win"]) ++
    [.coordinator .info ("translation succeeded with " ++ toString set.size ++ " output(s)"),
     replacementNote before set]
  | .failure d =>
    [.coordinator .info ("translation failed: " ++ d.message), replacementNote before .empty]

/-- What a translator is asked. -/
def commission (s : Session) (language namespaceHint : String) : Commission :=
  ⟨s.sources.toTexts, namespaceHint, language⟩

/-- Translates all sources, remembering language and hint. -/
def translate (s : Session) (translator : Translator) (language namespaceHint : String) : Attempt :=
  let commission := s.commission language namespaceHint
  let answer := translator commission
  let outcome := Outcome.ofReply answer.reply
  ⟨{ s with language := some language, namespaceHint }.install outcome, outcome,
    .coordinator .info
        ("translating " ++ toString commission.sources.length ++ " source(s) to " ++ language) ::
      .submitted commission :: answer.events ++ installationNotes s.targets outcome⟩

/-- Translates again, to the same language with the same hint; the first time, to the
first language of the catalog. -/
def translateAgain (s : Session) (translator : Translator) (catalog : Listing) : Step Outcome :=
  let go (language : String) (before : List Event) : Step Outcome :=
    let attempt := s.translate translator language s.namespaceHint
    ⟨attempt.session, .ok attempt.outcome, before ++ attempt.events⟩
  match s.language with
  | some language => go language []
  | none =>
    match Catalog.default catalog with
    | .error failure => ⟨s, .error failure, catalog.events⟩
    | .ok language => go language catalog.events

end Session

end SourceDesk
