import Provenance.Command.Run

/-!
# The command line

Reads what stands at the paths of a command, runs it, prints its result and saves its file.
-/

open Provenance

/-- What stands at a path on disk. -/
partial def readTree (path : String) : IO (Option FileTree) := do
  try
    return some (.file (← IO.FS.readBinFile path))
  catch _ =>
    try
      let entries ← ((← IO.currentDir) / path).readDir
      let below ← entries.toList.filterMapM fun entry => do
        return (← readTree entry.path.toString).map (entry.fileName, ·)
      return some (.folder below)
    catch _ => return none

/-- Runs the command that the arguments give. -/
def main (args : List String) : IO UInt32 := do
  match Command.parse? args with
  | none => return 2
  | some command =>
    let disk ← command.paths.mapM fun path => return (path, ← readTree path)
    let outcome := command.run fun path => (disk.lookup path).join
    IO.print outcome.printed
    let fail (failure : Failure) : IO UInt32 := do
      IO.eprint failure.report
      return 1
    match outcome.result with
    | .error failure => fail failure
    | .ok none => return 0
    | .ok (some save) =>
      try
        IO.FS.writeFile save.path save.content
        IO.print save.notice
        return 0
      catch _ => fail (.outputUnwritable save.path)
