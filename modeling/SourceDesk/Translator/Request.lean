import SourceDesk.Document.Basic

/-!
What a translator is asked, and the line of JSON that asks an external one.
-/

namespace SourceDesk

/-- All sources in order, the hint for names, and the language to translate to. -/
structure Commission where
  sources : List NamedText
  namespaceHint : String
  language : String
  deriving DecidableEq, Repr

/-- The JSON form. -/
def Commission.write (c : Commission) : Bytes :=
  Json.Write.object
    [("sources", Json.Write.list (c.sources.map NamedText.write)),
     ("namespace", Json.Write.text c.namespaceHint),
     ("language", Json.Write.text c.language)]

/-- The two things that an external translator can be asked for. -/
inductive Request where
  | translate (commission : Commission)
  | languages
  deriving DecidableEq, Repr

namespace Request

/-- The JSON form. -/
def write : Request → Bytes
  | .translate c => Json.Write.object [("cmd", Json.Write.text "translate"), ("payload", c.write)]
  | .languages => Json.Write.object [("cmd", Json.Write.text "languages")]

/-- The line that is sent. -/
def line (r : Request) : Bytes := r.write ++ [10]

end Request

end SourceDesk
