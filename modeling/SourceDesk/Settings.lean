import SourceDesk.Failure
import SourceDesk.Json.Codec
import SourceDesk.Json.Write

/-!
Settings: what a run needs to know besides its sources. They come from a file of JSON
and from the command line, in layers, of which a later one counts more.
-/

namespace SourceDesk

structure Settings where
  translator : Option Path
  translatorArgs : List String
  language : Option String
  namespaceHint : Option String
  outputDir : Option Path
  deriving DecidableEq, Repr

namespace Settings

/-- Nothing set. -/
def none : Settings := ⟨.none, [], .none, .none, .none⟩

/-- The fields of the JSON form; each may be absent. -/
def fields : Json.Fields
    (Option Path × List String × Option String × Option String × Option Path × Unit) :=
  .field "translator" Json.Decoder.path.optional (some .none) <|
  .field "translator_args" Json.Decoder.text.list (some []) <|
  .field "language" Json.Decoder.text.optional (some .none) <|
  .field "namespace" Json.Decoder.text.optional (some .none) <|
  .field "output_dir" Json.Decoder.path.optional (some .none) .done

def decoder : Json.Decoder Settings :=
  fields.decoder "SessionConfig" fun (t, as, l, n, o, ()) => ⟨t, as, l, n, o⟩

/-- A path as JSON, if its bytes are a text; null for no path. -/
def writePath? : Option Path → Option Bytes
  | .none => some Json.Write.null
  | some p => (Utf8.decode? p.bytes).map Json.Write.text

/-- A text as JSON, or null. -/
def writeText : Option String → Bytes
  | .none => Json.Write.null
  | some s => Json.Write.text s

/-- The JSON form, with a null for what is not set; nothing if a path is no text. -/
def write? (s : Settings) : Option Bytes :=
  match writePath? s.translator, writePath? s.outputDir with
  | some translator, some outputDir =>
    some <| Json.Write.object
      [("translator", translator),
       ("translator_args", Json.Write.list (s.translatorArgs.map Json.Write.text)),
       ("language", writeText s.language),
       ("namespace", writeText s.namespaceHint),
       ("output_dir", outputDir)]
  | _, _ => .none

/-- What is said about settings that have no JSON form. -/
def unwritable : String := "path contains invalid UTF-8 characters"

/-- The settings of two layers. What `upper` sets counts; a list of arguments is set
if it is not empty. -/
def overriddenBy (s upper : Settings) : Settings where
  translator := upper.translator.or s.translator
  translatorArgs := if upper.translatorArgs.isEmpty then s.translatorArgs else upper.translatorArgs
  language := upper.language.or s.language
  namespaceHint := upper.namespaceHint.or s.namespaceHint
  outputDir := upper.outputDir.or s.outputDir

/-- What is said about a file that is no text. -/
def notText : String := "stream did not contain valid UTF-8"

/-- The settings in a file. -/
def load (read : Path → Except String Bytes) (path : Path) : Except Failure Settings :=
  match read path with
  | .error reason => .error (.storage path reason)
  | .ok data =>
    match Utf8.decode? data with
    | .none => .error (.storage path notText)
    | some _ =>
      match decoder.decode data with
      | .error f => .error (.settings (path.display ++ ": " ++ f.message data))
      | .ok settings => .ok settings

end Settings

end SourceDesk
