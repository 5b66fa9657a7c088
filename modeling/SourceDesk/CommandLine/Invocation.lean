import SourceDesk.CommandLine.Use
import SourceDesk.Log
import SourceDesk.Settings

/-!
What a command line asks for: work, with or without much talk about it, or a text
about the program. The switches count from left to right, so that a notice that is
asked for wins over whatever is wrong behind it, and loses against what is wrong
before it.
-/

namespace SourceDesk.CommandLine

/-- The work that a command line asks for. -/
structure Job where
  sources : List Path
  /-- A file with settings. -/
  config : Option Path
  /-- The settings of the command line itself, which count more. -/
  overrides : Settings
  /-- Whether only the languages of the translator are wanted. -/
  listsLanguages : Bool
  deriving DecidableEq, Repr

/-- How much is said about the work. -/
structure Verbosity where
  quiet : Bool
  verbose : Bool
  deriving DecidableEq, Repr

/-- Which log records are shown. Quiet counts more than verbose. -/
def Verbosity.filter (v : Verbosity) : Log.Filter :=
  if v.quiet then .upTo .error else if v.verbose then .upTo .debug else .upTo .warn

structure Options where
  job : Job
  verbosity : Verbosity
  deriving DecidableEq, Repr

namespace Options

/-- No switch given. -/
def none : Options := ⟨⟨[], .none, Settings.none, false⟩, ⟨false, false⟩⟩

/-- A value as a path; the empty path is none. -/
def path? (value : Bytes) : Option Path := if value = [] then .none else some ⟨value⟩

/-- The options with a toggle given, which may be given once. -/
def toggle? (o : Options) : Toggle → Option Options
  | .listLanguages =>
    if o.job.listsLanguages then .none else some { o with job.listsLanguages := true }
  | .quiet => if o.verbosity.quiet then .none else some { o with verbosity.quiet := true }
  | .verbose => if o.verbosity.verbose then .none else some { o with verbosity.verbose := true }

/-- A value in a place that can be taken once. -/
def once {α : Type} (old new : Option α) : Option α := if old.isSome then .none else new

/-- The options with a value assigned. Sources and arguments of the translator are
collected, all else may be assigned once. -/
def assign? (o : Options) (s : Slot) (value : Bytes) : Option Options :=
  match s with
  | .source => (path? value).map fun p => { o with job.sources := o.job.sources ++ [p] }
  | .translatorArg =>
    (Utf8.decode? value).map fun a =>
      { o with job.overrides.translatorArgs := o.job.overrides.translatorArgs ++ [a] }
  | .translator =>
    (once o.job.overrides.translator (path? value)).map fun p =>
      { o with job.overrides.translator := some p }
  | .language =>
    (once o.job.overrides.language (Utf8.decode? value)).map fun l =>
      { o with job.overrides.language := some l }
  | .namespaceHint =>
    (once o.job.overrides.namespaceHint (Utf8.decode? value)).map fun n =>
      { o with job.overrides.namespaceHint := some n }
  | .output =>
    (once o.job.overrides.outputDir (path? value)).map fun p =>
      { o with job.overrides.outputDir := some p }
  | .config => (once o.job.config (path? value)).map fun p => { o with job.config := some p }

/-- Whether there is anything to do: a source to translate, or languages to list. -/
def isComplete (o : Options) : Bool := o.job.listsLanguages || !o.job.sources.isEmpty

end Options

inductive Invocation where
  | work (options : Options)
  | notice (n : Notice)
  /-- The command line asks for nothing that can be done. -/
  | misuse
  deriving DecidableEq, Repr

namespace Invocation

/-- What uses of switches ask for, after some options. -/
def ofUsesFrom : Options → List Use → Invocation
  | o, [] => if o.isComplete then .work o else .misuse
  | _, .misuse :: _ => .misuse
  | _, .notice n :: _ => .notice n
  | o, .toggle t :: us =>
    match o.toggle? t with
    | some o => ofUsesFrom o us
    | none => .misuse
  | o, .assign s v :: us =>
    match o.assign? s v with
    | some o => ofUsesFrom o us
    | none => .misuse

/-- What the words of a command line ask for. -/
def ofWords (words : List Bytes) : Invocation := ofUsesFrom .none (Use.ofWords words)

end Invocation

end SourceDesk.CommandLine
