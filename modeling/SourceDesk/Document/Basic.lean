import SourceDesk.Json.Codec
import SourceDesk.Json.Write
import SourceDesk.Text.Charset

/-!
Named texts, as they go to a translator and come back from it, and documents: texts
that also know where they are stored, in which charset, and whether they hold changes
that are not stored.
-/

namespace SourceDesk

/-- A name and a text. -/
structure NamedText where
  name : String
  content : String
  deriving DecidableEq, Repr

namespace NamedText

/-- The fields of the JSON form. -/
def fields : Json.Fields (String × String × Unit) :=
  .field "name" .text none (.field "content" .text none .done)

def decoder : Json.Decoder NamedText := fields.decoder "SourceText" fun (n, c, ()) => ⟨n, c⟩

/-- The JSON form. -/
def write (t : NamedText) : Bytes :=
  Json.Write.object [("name", Json.Write.text t.name), ("content", Json.Write.text t.content)]

end NamedText

/-- A text in a session. -/
structure Document where
  name : String
  /-- Where the text is stored; a generated text has no place until it is saved. -/
  path : Option Path
  content : String
  /-- The label of the charset it is stored in. -/
  encoding : String
  /-- Whether it was changed since it was last read, generated or written. -/
  dirty : Bool
  deriving DecidableEq, Repr

namespace Document

/-- The document that a path holds. -/
def loaded (path : Path) (text : DecodedText) : Document :=
  ⟨path.documentName, some path, text.content, text.encoding, false⟩

/-- The document of a text that a translator produced. -/
def generated (t : NamedText) : Document := ⟨t.name, none, t.content, "utf-8", false⟩

/-- The document without what only concerns storage. -/
def toText (d : Document) : NamedText := ⟨d.name, d.content⟩

/-- Takes a new text. A text that is no other leaves the document as it is. -/
def commit (d : Document) (content : String) : Document :=
  if d.content = content then d else { d with content, dirty := true }

/-- Equality up to the spelling of the path. -/
def same (d e : Document) : Bool :=
  d.name == e.name && d.content == e.content && d.encoding == e.encoding && d.dirty == e.dirty &&
    match d.path, e.path with
    | none, none => true
    | some p, some q => p.same q
    | _, _ => false

end Document

end SourceDesk
