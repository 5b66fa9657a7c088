import SourceDesk.Diagnostic
import SourceDesk.Document.Basic

/-!
What an external translator answers: an object, or a list, whose `status` says which
kind of answer it is. The status is read where it stands, the rest is read ahead and
understood once the status is known, so that members may come in any order.
-/

namespace SourceDesk

/-- The answer of an external translator. -/
inductive Response where
  | ok (payload : Json.Tree)
  | error (diagnostic : Diagnostic)

namespace Response

open Json

/-- The kinds of answers. -/
inductive Status where
  | ok
  | error
  deriving DecidableEq, Repr

/-- The key of the status. -/
def statusKey : String := "status"

/-- The names of the kinds. -/
def Status.names : List String := ["ok", "error"]

def Status.ofName? (s : String) : Option Status :=
  if s = "ok" then some .ok else if s = "error" then some .error else none

/-- Reads a status. -/
def readStatus (s : Bytes) : Reading Status :=
  match readText "variant identifier" s with
  | .error f => .error f
  | .ok (name, r) =>
    match Status.ofName? name with
    | some status => .ok (status, r)
    | none => .error (.here r (.unknownVariant name Status.names))

/-- Reads members up to the closing brace, which stays, with the status taken out. -/
def readMembers : (fuel : Nat) → (first : Bool) → Option Status → Bytes →
    Reading (Option Status × List (String × Tree))
  | 0, _, _, _ => .error (.here [] .endInValue)
  | fuel + 1, first, status, s =>
    match readKey first s with
    | .error f => .error f
    | .ok none => .ok ((status, []), skipBlanks s)
    | .ok (some (key, s)) =>
      if key = statusKey then
        match status with
        | some _ => .error (.here (leaveObject s) (.duplicateField statusKey))
        | none =>
          match readColon s with
          | .error f => .error f
          | .ok s =>
            match readStatus s with
            | .error f => .error f
            | .ok (status, s) => readMembers fuel false (some status) s
      else
        match readColon s with
        | .error f => .error f
        | .ok s =>
          match readTree (treeFuel s) (maxDepth - 1) s with
          | .error f => .error f
          | .ok (t, s) =>
            (readMembers fuel false status s).map fun ((status, ms), r) =>
              ((status, (key, t) :: ms), r)

/-- Reads the status and the rest of an answer. -/
def readTagged (s : Bytes) : Reading (Status × Tree) :=
  match skipBlanks s with
  | [] => .error (.next [] .endInValue)
  | b :: r =>
    if b = openBrace then
      match readMembers (r.length + 1) true none r with
      | .error f => .error f
      | .ok ((none, _), r) => .error (.here (leaveObject r) (.missingField statusKey))
      | .ok ((some status, ms), r) => .ok ((status, .object ms), leaveObject r)
    else if b = openBracket then
      match readElementStart true r with
      | .error f => .error f
      | .ok none => .error (.here (leaveList r) (.missingField statusKey))
      | .ok (some r) =>
        match readStatus r with
        | .error f => .error f
        | .ok (status, r) =>
          (readItems (treeFuel r) (maxDepth - 1) false r).map fun (ts, r) =>
            ((status, .array ts), leaveList r)
    else .error (mismatch "internally tagged enum Response" (b :: r))

/-- The fields of a good answer. -/
def okFields : Fields (Tree × Unit) := .field "payload" .free (some .null) .done

/-- The answer with a status. -/
def ofTree : Status → Tree → Except Cause Response
  | .ok, t =>
    (okFields.ofTree "struct variant Response::Ok" .inSequence t).map fun (payload, ()) =>
      .ok payload
  | .error, t =>
    (Diagnostic.fields.ofTree "struct variant Response::Error" .inSequence t).map fun (m, p, ()) =>
      .error ⟨m, p⟩

/-- Reads the whole output of a translator. -/
def decode (text : Bytes) : Except Fault Response :=
  match readTagged text with
  | .error f => .error f
  | .ok ((status, t), r) =>
    match ofTree status t with
    | .error c => .error (.placeless c)
    | .ok response =>
      match readEnd r with
      | .error f => .error f
      | .ok () => .ok response

/-- The fields of the payload that answers a commission. -/
def targetFields : Fields (List NamedText × Unit) :=
  .field "targets" NamedText.decoder.list none .done

/-- The fields of the payload that answers the question for languages. -/
def languageFields : Fields (List String × Unit) := .field "languages" Decoder.text.list none .done

/-- The texts in a payload. -/
def targets (payload : Tree) : Except Cause (List NamedText) :=
  (targetFields.ofTree "struct TargetsPayload" .inArray payload).map fun (ts, ()) => ts

/-- The languages in a payload. -/
def languages (payload : Tree) : Except Cause (List String) :=
  (languageFields.ofTree "struct LanguagesPayload" .inArray payload).map fun (ls, ()) => ls

end Response

end SourceDesk
