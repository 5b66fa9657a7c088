import SourceDesk.Path

/-!
Runs of external programs, as far as the one who starts them can see.
-/

namespace SourceDesk

/-- A program and its arguments. -/
structure Command where
  program : Path
  args : List String
  deriving DecidableEq, Repr

/-- How a process ended. -/
inductive ExitStatus where
  | code (n : Nat)
  /-- A signal ended it, and perhaps its memory was dumped. -/
  | signal (n : Nat) (dumped : Bool)
  deriving DecidableEq, Repr

namespace ExitStatus

def isSuccess : ExitStatus → Bool
  | .code n => n == 0
  | .signal .. => false

/-- The names of the signals from one on. -/
def signalNames : List String :=
  ["SIGHUP", "SIGINT", "SIGQUIT", "SIGILL", "SIGTRAP", "SIGABRT", "SIGBUS", "SIGFPE", "SIGKILL",
   "SIGUSR1", "SIGSEGV", "SIGUSR2", "SIGPIPE", "SIGALRM", "SIGTERM", "SIGSTKFLT", "SIGCHLD",
   "SIGCONT", "SIGSTOP", "SIGTSTP", "SIGTTIN", "SIGTTOU", "SIGURG", "SIGXCPU", "SIGXFSZ",
   "SIGVTALRM", "SIGPROF", "SIGWINCH", "SIGIO", "SIGPWR", "SIGSYS"]

/-- How an end is named. -/
def describe : ExitStatus → String
  | .code n => "exit status: " ++ toString n
  | .signal n dumped =>
    "signal: " ++ toString n ++
      (match n, signalNames[n - 1]? with
        | 0, _ => ""
        | _, some name => " (" ++ name ++ ")"
        | _, none => "") ++
      if dumped then " (core dumped)" else ""

end ExitStatus

/-- What came of the attempt to run a program. -/
inductive ProcessRun where
  | unstarted (reason : String)
  /-- The program ran. `readsInput` says whether it took what it was sent. -/
  | ended (status : ExitStatus) (stdout stderr : Bytes) (readsInput : Bool)
  deriving DecidableEq, Repr

/-- Runs a program on a line of input. -/
abbrev Launcher := Command → Bytes → ProcessRun

/-- An attempt to run a program. -/
structure Launch where
  command : Command
  line : Bytes
  run : ProcessRun
  deriving DecidableEq, Repr

end SourceDesk
