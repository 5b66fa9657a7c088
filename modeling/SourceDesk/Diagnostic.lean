import SourceDesk.Json.Codec
import SourceDesk.Json.Write

/-!
What a translator says about sources that it cannot translate, and where.
-/

namespace SourceDesk

/-- A place in a source: its name and a number of characters. -/
structure SourcePosition where
  source : String
  offset : UInt64
  deriving DecidableEq, Repr

namespace SourcePosition

/-- The fields of the JSON form. -/
def fields : Json.Fields (String × UInt64 × Unit) :=
  .field "source" .text none (.field "offset" .count none .done)

def decoder : Json.Decoder SourcePosition :=
  fields.decoder "SourcePosition" fun (s, o, ()) => ⟨s, o⟩

/-- The JSON form. -/
def write (p : SourcePosition) : Bytes :=
  Json.Write.object
    [("source", Json.Write.text p.source), ("offset", Json.Write.nat p.offset.toNat)]

end SourcePosition

/-- A message, with a place if it has one. -/
structure Diagnostic where
  message : String
  position : Option SourcePosition
  deriving DecidableEq, Repr

namespace Diagnostic

/-- A message about no place in particular. -/
def unlocated (message : String) : Diagnostic := ⟨message, none⟩

/-- The fields of the JSON form; the place may be absent. -/
def fields : Json.Fields (String × Option SourcePosition × Unit) :=
  .field "message" .text none (.field "position" SourcePosition.decoder.optional (some none) .done)

def decoder : Json.Decoder Diagnostic := fields.decoder "TranslationError" fun (m, p, ()) => ⟨m, p⟩

/-- The JSON form, without the place if there is none. -/
def write (d : Diagnostic) : Bytes :=
  Json.Write.object
    (("message", Json.Write.text d.message) ::
      (d.position.map fun p => ("position", p.write)).toList)

end Diagnostic

end SourceDesk
