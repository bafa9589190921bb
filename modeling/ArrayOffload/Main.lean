import ArrayOffload.CommandLine.Run

/-!
# The program

Reads the files that a command line names, carries the command out, and writes what it left
behind.
-/

namespace ArrayOffload.Main

/-- A file's contents, if it can be read. -/
def readFile? (path : String) : IO (Option (String × String)) := do
  try
    return some (path, ← IO.FS.readFile path)
  catch _ => return none

/-- The variables that matter. -/
def environment : IO CommandLine.Environment := do
  let names := ["OFFLOAD_CONFIG", "OFFLOAD_DUMP_DIR"]
  let found ← names.mapM fun name => do
    return (← IO.getEnv name).map fun value => (name, value)
  return found.filterMap id

/-- Write a new file below the working directory; one that is there stays as it is. -/
def writeFile (names : PathNames) (contents : String) : IO Unit := do
  unless names.dropLast.isEmpty do
    IO.FS.createDirAll (PathNames.text names.dropLast)
  if (← readFile? (PathNames.text names)).isNone then
    IO.FS.writeFile (PathNames.text names) contents

end ArrayOffload.Main

open ArrayOffload in
/-- Run the command line. Warnings go to the error channel. -/
def main (words : List String) : IO UInt32 := do
  let env ← Main.environment
  let paths := CommandLine.pathsOf env words
  let disk := Disk.ofFiles ((← paths.mapM Main.readFile?).filterMap id)
  let report := CommandLine.run disk env words
  for (names, contents) in report.disk.files do
    if (disk.file? names).isNone then Main.writeFile names contents
  IO.print report.stdout
  for event in report.journal.filter (Event.within .warn) do
    IO.eprintln event.text
  IO.eprint report.stderr
  return report.code.toUInt32
