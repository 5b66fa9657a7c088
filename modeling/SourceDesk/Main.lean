import Std.Time.Format
import Std.Time.Zoned
import SourceDesk.CommandLine.Conduct
import SourceDesk.Storage.Disk
import SourceDesk.Storage.Memory

/-!
The program: hands the words of the command line and the files that they name to the
library, writes the files that it changed, and prints what it reports. How translators are
started is up to the surroundings. Here there is nothing to start them with, so that the
program says of each of them what a system says of a file that cannot be run.
-/

namespace SourceDesk.CommandLine

/-! ### Files -/

/-- Why a file could not be read, as the library words it. -/
def readFailure : IO.Error → String
  | .noFileOrDirectory .. => DiskError.missing.message
  | .permissionDenied .. => DiskError.denied.message
  | .inappropriateType .. => DiskError.isDirectory.message
  | e => toString e

/-- The files that a job may read, as they are now. -/
def readFiles (paths : List Path) : IO Memory :=
  paths.foldlM
    (fun m p => do
      match ← (IO.FS.readBinFile p.display).toBaseIO with
      | .ok data => return m.put p data.toList
      | .error e => return m.denyRead p (readFailure e))
    (Memory.ofFiles [])

/-- Writes the files that are not what they were, in directories made for them. -/
def writeFiles (before after : Memory) : IO Unit := do
  for (p, data) in after.files do
    if before.files.lookup p ≠ some data then
      if let some above := p.parent? then
        unless above.isEmpty do IO.FS.createDirAll above.display
      IO.FS.writeBinFile p.display ⟨data.toArray⟩

/-! ### Programs -/

/-- What stands at a place, the contents of files aside. -/
def entryAt? (place : Place) : IO (Option Entry) := do
  let path := Path.ofComponents (.root :: place.map .normal)
  match ← (IO.FS.withFile path.display .read fun file => file.read 1).toBaseIO with
  | .ok _ | .error (.permissionDenied ..) => return some (.file [])
  | .error (.inappropriateType ..) => return some .directory
  | .error _ => return none

/-- The places on the way along names. -/
def placesOnWay (place : Place) : List Bytes → List Place
  | [] => [place]
  | name :: names =>
    let next :=
      if name = Path.dot then place
      else if name = Path.dotDot then place.dropLast
      else place ++ [name]
    place :: placesOnWay next names

/-- As much of the disk as lies on the way to some paths. -/
def diskOnWay (paths : List Path) : IO Disk := do
  let home := Disk.steps (.ofText (toString (← IO.currentDir)))
  let places := paths.flatMap fun p => placesOnWay (Disk.base ⟨[], home⟩ p) (Disk.steps p)
  let entries ← (placesOnWay [] home ++ places).filterMapM fun place => do
    return (← entryAt? place).map fun e => (place, e)
  return ⟨entries, home⟩

/-! ### Runs -/

/-- The program that an invocation would have translate. -/
def Invocation.translator? (i : Invocation) (store : Memory) : Option Path :=
  match i with
  | .work o => (o.job.settings Memory.storage store).toOption.bind Settings.translator
  | .notice _ | .misuse => none

/-- The local time, to the millisecond. -/
def currentTime : IO String := do
  return (← Std.Time.PlainDateTime.now).format "uuuu-MM-dd HH:mm:ss.SSS"

attribute [local instance] FurtherCharsets.none in
/-- Does what an invocation asks for, given a way to start programs. The targets of a
translation are written as UTF-8, so that no further charsets are needed. -/
def Invocation.carryOut (i : Invocation) (store : Memory) (launch : Launcher) : IO UInt32 := do
  let conduct := i.conduct Memory.storage store launch (← currentTime)
  writeFiles store conduct.report.store
  IO.print conduct.stdout
  IO.eprint (Utf8.decodeLossy conduct.stderr)
  return UInt32.ofNat conduct.status

end SourceDesk.CommandLine

open SourceDesk CommandLine in
/-- The program, given the words of the command line. -/
def main (args : List String) : IO UInt32 := do
  let invocation := Invocation.ofWords (args.map Utf8.encode)
  let store ← readFiles invocation.files
  let disk ← diskOnWay (invocation.translator? store).toList
  invocation.carryOut store fun command _ => .unstarted (disk.startFailure command.program)
