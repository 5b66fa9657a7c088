import SourceDesk.Event

/-!
Reports of work: all that was said and seen, in order, and the error that ended the
work, if one did. Each thing has its place on one of the two channels, if it is shown.
-/

namespace SourceDesk.CommandLine

/-- One thing that was said or seen. -/
inductive Remark where
  /-- How far the work has come. -/
  | progress (line : String)
  /-- What was asked for. -/
  | result (line : String)
  | event (e : Event)
  deriving DecidableEq, Repr

/-- The error that ended the work, with the reason behind it if it names none itself. -/
structure FinalError where
  message : String
  cause : Option String
  deriving DecidableEq, Repr

namespace FinalError

/-- Lines with blanks in front of each. -/
def indented (s : String) : String :=
  "    " ++ String.join (s.toList.map fun c => if c.toNat = 10 then "\n    " else c.toString)

/-- How an error is printed. -/
def text (e : FinalError) : String :=
  "Error: " ++ e.message ++
    (match e.cause with
      | none => ""
      | some cause => "\n\nCaused by:\n" ++ indented cause) ++ "\n"

end FinalError

/-- What work came to: the storage it left, what was said, and how it ended. -/
structure Report (σ : Type) where
  store : σ
  remarks : List Remark
  error : Option FinalError

namespace Report

variable {σ : Type}

/-- Zero for work that was done, one for work that an error ended. -/
def exitCode (r : Report σ) : Nat := if r.error.isSome then 1 else 0

/-- The attempts to start a translator, in order. -/
def launches (r : Report σ) : List Launch :=
  r.remarks.filterMap fun m => match m with
    | .event e => e.launched?
    | _ => none

/-- What a remark puts on the standard output. -/
def outputOf : Remark → String
  | .progress line | .result line => line ++ "\n"
  | .event _ => ""

/-- The standard output. -/
def stdout (r : Report σ) : String := String.join (r.remarks.map outputOf)

/-- What a remark puts on the standard error: log records, after the time, and whatever a
translator wrote there. -/
def diagnosticsOf (time : String) : Remark → Bytes
  | .event (.logged record) => Utf8.encode (time ++ " " ++ record.line ++ "\n")
  | .event (.launched ⟨_, _, .ended _ _ stderr _⟩) => stderr
  | _ => []

/-- The standard error, the final error last. -/
def stderr (r : Report σ) (time : String) : Bytes :=
  r.remarks.flatMap (diagnosticsOf time) ++ Utf8.encode ((r.error.map FinalError.text).getD "")

end Report

end SourceDesk.CommandLine
