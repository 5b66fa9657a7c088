import SourceDesk.Session.Attempt
import SourceDesk.Session.Loading
import SourceDesk.Session.Saving

/-!
Sessions at work. A run does operations one after the other, on a session and on what
lies around it: a reader and a storage that answer as they like, and the translator and
the catalog that an operation brings along. From what was asked and answered the deeds
of a run are told: what was read, taken over, written and installed, in order.
-/

namespace SourceDesk

/-- What a session can be asked to do. -/
inductive Operation where
  | load (paths : List Path)
  | commit (which : Shelf) (name content : String)
  | replaceTargets (targets : DocumentSet) (wellFormed : targets.WellFormed)
  | save (which : Shelf)
  | saveTargetAs (name : String) (path : Path)
  | exportTargets (dir : Path)
  | resolve (position : SourcePosition)
  | locate
  | translate (translator : Translator) (language namespaceHint : String)
  | translateAgain (translator : Translator) (catalog : Listing)

namespace Operation

/-- The results of all kinds of operations. -/
inductive Result where
  | names (names : List String)
  | changed (changed : Bool)
  | count (count : Nat)
  | paths (paths : List Path)
  | place (location : Option Location)
  | outcome (outcome : Outcome)
  | done
  deriving DecidableEq, Repr

/-- The outcome of an attempt to translate. -/
def Result.outcome? : Result → Option Outcome
  | .outcome o => some o
  | _ => none

end Operation

/-- The step with another form of result. -/
def Step.map {α β : Type} (f : α → β) (t : Step α) : Step β := ⟨t.session, t.result.map f, t.events⟩

/-- Does one operation. -/
def Operation.perform [FurtherCharsets] {σ : Type} (reader : Reader σ) (storage : Storage σ)
    (store : σ) (s : Session) : Operation → σ × Step Operation.Result
  | .load paths => (s.loadFrom reader store paths).map id (Step.map .names)
  | .commit which name content => (store, (s.commit which name content).map .changed)
  | .replaceTargets targets _ => (store, (s.replaceTargets targets).map fun () => .done)
  | .save which => (s.save storage store which).map id (Step.map .count)
  | .saveTargetAs name p => (s.saveTargetAs storage store name p).map id (Step.map fun () => .done)
  | .exportTargets dir => (s.exportTargets storage store dir).map id (Step.map .paths)
  | .resolve p => (store, ⟨s, (s.resolve p).map fun l => .place (some l), []⟩)
  | .locate =>
    match s.locate? with
    | none => (store, ⟨s, .ok (.place none), []⟩)
    | some place => (store, ⟨s, place.map fun l => .place (some l), []⟩)
  | .translate translator language namespaceHint =>
    let attempt := s.translate translator language namespaceHint
    (store, ⟨attempt.session, .ok (.outcome attempt.outcome), attempt.events⟩)
  | .translateAgain translator catalog =>
    (store, (s.translateAgain translator catalog).map .outcome)

/-- An operation that was done, and what came of it. -/
structure Turn where
  operation : Operation
  result : Except Failure Operation.Result
  events : List Event

/-- What operations leave that were done one after the other. -/
structure Run (σ : Type) where
  store : σ
  session : Session
  turns : List Turn

/-- Does operations one after the other. -/
def run [FurtherCharsets] {σ : Type} (reader : Reader σ) (storage : Storage σ) :
    σ → Session → List Operation → Run σ
  | store, s, [] => ⟨store, s, []⟩
  | store, s, op :: ops =>
    let (store, t) := op.perform reader storage store s
    let rest := run reader storage store t.session ops
    { rest with turns := ⟨op, t.result, t.events⟩ :: rest.turns }

/-! ### Deeds -/

/-- What operations do to a session, taken apart: an operation can do several of these,
and one that fails has done those that went before. -/
inductive Deed where
  | loaded (path : Path) (data : Bytes)
  /-- A text was handed in for a document, whether there was one or not. -/
  | committed (which : Shelf) (name content : String)
  | written (seat : Seat) (path : Path) (data : Bytes)
  | replaced (targets : DocumentSet)
  | translated (language namespaceHint : String) (outcome : Outcome)
  | translatedAgain (catalog : Listing) (outcome : Outcome)

/-- The deeds that show in events. -/
def Event.deed? : Event → Option Deed
  | .read p data => some (.loaded p data)
  | .written seat p data => some (.written seat p data)
  | _ => none

/-- The deeds of a turn. -/
def Turn.deeds (t : Turn) : List Deed :=
  match t.operation with
  | .load _ | .save _ | .saveTargetAs .. | .exportTargets _ => t.events.filterMap Event.deed?
  | .commit which name content => [.committed which name content]
  | .replaceTargets targets _ => [.replaced targets]
  | .resolve _ | .locate => []
  | .translate _ language namespaceHint =>
    match t.result with
    | .ok (.outcome o) => [.translated language namespaceHint o]
    | _ => []
  | .translateAgain _ catalog =>
    match t.result with
    | .ok (.outcome o) => [.translatedAgain catalog o]
    | _ => []

/-- The deeds of a run, in order. -/
def Run.deeds {σ : Type} (r : Run σ) : List Deed := r.turns.flatMap Turn.deeds

end SourceDesk
