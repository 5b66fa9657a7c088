import SourceDesk.Session.Basic
import SourceDesk.Storage.Basic
import SourceDesk.Text.Charset

/-!
Writing documents: those with changes to where they came from, a target to a path of
its own, or all targets into a directory. The first failure ends each of them, and
what was written before it stays written.
-/

namespace SourceDesk

variable [FurtherCharsets]

/-- What writing one document has come to. -/
structure Written (σ : Type) where
  store : σ
  /-- The document afterwards, or why it was not written. -/
  result : Except Failure Document
  events : List Event

/-- Writes a document to a path, in its own charset. A text that the charset cannot
hold is not written at all. A document that was written is clean. -/
def Document.writeTo {σ : Type} (d : Document) (storage : Storage σ) (store : σ) (seat : Seat)
    (p : Path) : Written σ :=
  match encodeText? d.content d.encoding with
  | none =>
    ⟨store,
      .error (.storage p ("content of " ++ d.name ++ " is not representable in " ++ d.encoding)),
      [.session .warn (d.name ++ " cannot be represented in " ++ d.encoding)]⟩
  | some data =>
    match storage.write store p data with
    | (store, .error reason) =>
      ⟨store, .error (.storage p reason),
        [.unwritten seat p data reason,
         .session .warn ("failed to write " ++ p.display ++ ": " ++ reason)]⟩
    | (store, .ok ()) =>
      ⟨store, .ok { d with dirty := false },
        [.written seat p data, .session .debug ("wrote " ++ d.name ++ " to " ++ p.display)]⟩

namespace Session

/-- What writing documents in order has come to; `written` holds what is reported of
each one written. -/
structure Saving (σ α : Type) where
  store : σ
  documents : List Document
  written : List α
  failure : Option Failure
  events : List Event

/-- Writes the documents with changes that have a path, from a slot of a shelf on. -/
def saveEach {σ : Type} (storage : Storage σ) (which : Shelf) :
    Nat → σ → List Document → Saving σ Path
  | _, store, [] => ⟨store, [], [], none, []⟩
  | slot, store, d :: ds =>
    if !d.dirty then
      let rest := saveEach storage which (slot + 1) store ds
      { rest with documents := d :: rest.documents }
    else
      match d.path with
      | none =>
        let rest := saveEach storage which (slot + 1) store ds
        { rest with
          documents := d :: rest.documents
          events := .session .debug ("skipping " ++ d.name ++ " without a path") :: rest.events }
      | some p =>
        let w := d.writeTo storage store ⟨which, slot⟩ p
        match w.result with
        | .error failure => ⟨w.store, d :: ds, [], some failure, w.events⟩
        | .ok d =>
          let rest := saveEach storage which (slot + 1) w.store ds
          { rest with
            documents := d :: rest.documents
            written := p :: rest.written
            events := w.events ++ rest.events }

/-- The note of a save that went well. -/
def savingNote (which : Shelf) (count : Nat) : Event :=
  .session .info ("saved " ++ toString count ++ " dirty document(s) in " ++ which.name)

/-- Saves the documents of a shelf that have changes. The result is their number. -/
def save {σ : Type} (s : Session) (storage : Storage σ) (store : σ) (which : Shelf) :
    σ × Step Nat :=
  let saving := saveEach storage which 0 store (s.shelf which).documents
  let session := s.setShelf which { s.shelf which with documents := saving.documents }
  (saving.store,
    match saving.failure with
    | some failure => ⟨session, .error failure, saving.events⟩
    | none =>
      ⟨session, .ok saving.written.length,
        saving.events ++ [savingNote which saving.written.length]⟩)

/-- Saves a target to a path, which becomes its own. -/
def saveTargetAs {σ : Type} (s : Session) (storage : Storage σ) (store : σ) (name : String)
    (p : Path) : σ × Step Unit :=
  match s.targets.find? name with
  | none => (store, ⟨s, .error (.notFound name), []⟩)
  | some (slot, d) =>
    let w := d.writeTo storage store ⟨.targets, slot⟩ p
    (w.store,
      match w.result with
      | .error failure => ⟨s, .error failure, w.events⟩
      | .ok d =>
        ⟨{ s with targets := s.targets.modify name fun _ => { d with path := some p } }, .ok (),
          w.events⟩)

/-- Why a name is refused as a path below the output directory. -/
def outsideReason : String := "target name must stay inside the output directory"

/-- Whether a document can be written below a directory under its name. -/
def isExportable (d : Document) : Bool := (Path.ofText d.name).isPlainRelative

/-- Where a document is written below a directory. -/
def exportPath (dir : Path) (d : Document) : Path := dir.join (.ofText d.name)

/-- Writes targets below a directory, from a slot on. -/
def exportEach {σ : Type} (storage : Storage σ) (dir : Path) :
    Nat → σ → List Document → Saving σ Path
  | _, store, [] => ⟨store, [], [], none, []⟩
  | slot, store, d :: ds =>
    let p := exportPath dir d
    let w := d.writeTo storage store ⟨.targets, slot⟩ p
    match w.result with
    | .error failure => ⟨w.store, d :: ds, [], some failure, w.events⟩
    | .ok d =>
      let rest := exportEach storage dir (slot + 1) w.store ds
      { rest with
        documents := { d with path := some p } :: rest.documents
        written := p :: rest.written
        events := w.events ++ rest.events }

/-- Writes all targets below a directory, each under its name. If a single name would
lead out of it, nothing is written. The result has the paths in order. -/
def exportTargets {σ : Type} (s : Session) (storage : Storage σ) (store : σ) (dir : Path) :
    σ × Step (List Path) :=
  match s.targets.documents.find? fun d => !isExportable d with
  | some bad =>
    (store,
      ⟨s, .error (.storage (exportPath dir bad) outsideReason),
        [.session .warn ("refusing to export target with unsafe name " ++ Quoted.ofText bad.name)]⟩)
  | none =>
    let saving := exportEach storage dir 0 store s.targets.documents
    (saving.store,
      ⟨{ s with targets := { s.targets with documents := saving.documents } },
        match saving.failure with
        | some failure => .error failure
        | none => .ok saving.written,
        saving.events⟩)

end Session

end SourceDesk
