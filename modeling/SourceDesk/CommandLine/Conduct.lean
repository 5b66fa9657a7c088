import SourceDesk.CommandLine.Usage
import SourceDesk.CommandLine.Work

/-!
Runs of the program from its command line to its end: work that is asked for is done, and
as loudly as was asked for; a text about the program is printed; and where nothing
can be done, the program says how it is used.
-/

namespace SourceDesk.CommandLine

/-- A run of the program: what was done, how it ended, and what was printed. -/
structure Conduct (σ : Type) where
  report : Report σ
  /-- The exit status. -/
  status : Nat
  stdout : String
  stderr : Bytes

/-- The files that are read for an invocation, and no others. -/
def Invocation.files : Invocation → List Path
  | .work o => o.job.config.toList ++ o.job.sources
  | .notice _ | .misuse => []

/-- What the program does with an invocation at a time. -/
def Invocation.conduct [FurtherCharsets] {σ : Type} (storage : Storage σ) (store : σ)
    (launch : Launcher) (time : String) : Invocation → Conduct σ
  | .work o =>
    let report := o.job.run o.verbosity storage store launch
    ⟨report, report.exitCode, report.stdout, report.stderr time⟩
  | .notice n => ⟨⟨store, [], none⟩, 0, n.text, []⟩
  | .misuse => ⟨⟨store, [], none⟩, 2, "", Utf8.encode Notice.help.text⟩

end SourceDesk.CommandLine
