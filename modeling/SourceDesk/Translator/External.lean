import SourceDesk.Translator.Basic
import SourceDesk.Translator.Response

/-!
External translators: a program that is run once for each question, takes one line of
JSON, and prints one JSON value. A run that fails counts more than what it printed.
-/

namespace SourceDesk.Command

/-- Why a run did not yield a payload, or the payload. -/
def understand (c : Command) : ProcessRun → Except Complaint Json.Tree
  | .unstarted reason =>
    .error (.plain ("failed to start translator " ++ c.program.display ++ ": " ++ reason))
  | .ended status stdout _ _ =>
    if !status.isSuccess then .error (.plain ("translator exited with " ++ status.describe))
    else
      match Response.decode stdout with
      | .error f => .error (.plain ("invalid translator response: " ++ f.message stdout))
      | .ok (.ok payload) => .ok payload
      | .ok (.error d) => .error (.diagnosed d)

/-- Runs the program on a request. -/
def ask (c : Command) (launch : Launcher) (request : Request) :
    Except Complaint Json.Tree × List Event :=
  let run := launch c request.line
  (c.understand run,
    [.command .debug ("spawning translator " ++ c.program.display),
     .launched ⟨c, request.line, run⟩])

/-- What a payload holds, or why it holds nothing. -/
def unpack {α : Type} (read : Json.Tree → Except Json.Cause α) :
    Except Complaint Json.Tree → Except Complaint α
  | .error c => .error c
  | .ok payload =>
    match read payload with
    | .error cause => .error (.plain cause.message)
    | .ok a => .ok a

/-- The program as a translator. -/
def translate (c : Command) (launch : Launcher) : Translator := fun commission =>
  let (answer, events) := c.ask launch (.translate commission)
  match unpack Response.targets answer with
  | .ok texts => ⟨.targets texts, events⟩
  | .error complaint => ⟨.refused complaint, events⟩

/-- The program as a catalog. -/
def languages (c : Command) (launch : Launcher) : Listing :=
  let (answer, events) := c.ask launch .languages
  ⟨unpack Response.languages answer, events⟩

end SourceDesk.Command
