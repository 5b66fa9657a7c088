import SourceDesk.Session.Basic
import SourceDesk.Storage.Basic

/-!
Loading sources. Each path is tried in turn; one that cannot be read changes nothing,
and the first of them is the failure that is reported in the end.
-/

namespace SourceDesk.Session

/-- What loading has come to. -/
structure Loading (σ : Type) where
  store : σ
  sources : DocumentSet
  /-- The names of the documents that were loaded, in order. -/
  names : List String
  failure : Option Failure
  events : List Event

/-- The notes of a document that was read. -/
def loadingNotes (replaced : Bool) (d : Document) (size : Nat) : List Event :=
  .session .debug
      ("loaded source " ++ d.name ++ " (" ++ toString size ++ " bytes, " ++ d.encoding ++ ")") ::
    if replaced then [.session .debug ("replaced previously loaded source " ++ d.name)] else []

/-- Reads paths into a set, one after the other. -/
def loadEach {σ : Type} (reader : Reader σ) : σ → List Path → DocumentSet → Loading σ
  | store, [], sources => ⟨store, sources, [], none, []⟩
  | store, p :: ps, sources =>
    match reader store p with
    | (store, .error reason) =>
      let rest := loadEach reader store ps sources
      { rest with
        failure := some (.storage p reason)
        events :=
          .unread p reason ::
            .session .warn ("failed to read " ++ p.display ++ ": " ++ reason) :: rest.events }
    | (store, .ok data) =>
      let d := Document.loaded p (.decode data)
      let (sources, replaced) := sources.exchange d
      let rest := loadEach reader store ps sources
      { rest with
        names := d.name :: rest.names
        events := .read p data :: loadingNotes replaced.isSome d data.length ++ rest.events }

/-- Loads paths as sources. The result has the names of the documents in order. -/
def loadFrom {σ : Type} (s : Session) (reader : Reader σ) (store : σ) (paths : List Path) :
    σ × Step (List String) :=
  let loading := loadEach reader store paths s.sources
  (loading.store,
    ⟨{ s with sources := loading.sources },
      match loading.failure with
      | some failure => .error failure
      | none => .ok loading.names,
      loading.events⟩)

/-- Loads paths as sources from what always reads the same. -/
def load (s : Session) (read : Path → Except String Bytes) (paths : List Path) :
    Step (List String) :=
  (s.loadFrom (fun () p => ((), read p)) () paths).2

end SourceDesk.Session
