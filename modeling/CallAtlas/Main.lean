import CallAtlas.Command.Outcome
import CallAtlas.FileSystem.Document
import CallAtlas.Grammar.Python

/-!
# The program

The arguments are a command. The files that it works on are read from the standard input, as a
document that names the directory one is in and lists its entries, source files with their syntax
trees. The only parser at hand is that for Python. The document may also give the time and the
commit that a report is marked with. A report is written to its path for real; the status is that of
the command. Where a command has no outcome, the program waits.
-/

namespace CallAtlas

/-- The file system that a document lays out. -/
def fileSystemOf? (document : Json) : Option FileSystem := do
  FileSystem.ofEntries? Grammar.Python.parse? (← decode? (← document.field? "directory"))
    (← decode? (← document.field? "entries"))

/-- The mark that a document gives reports. -/
def stampOf (document : Json) : Stamp where
  time := ((document.field? "time").bind decode?).getD ""
  commit := (document.field? "commit").bind decode?

/-- The times of a run that took some milliseconds, of which it is not known where they went. -/
def timingsOf (milliseconds : Nat) : Timings := ⟨fun _ => 0.0, Float.ofNat milliseconds⟩

/-- The part of a path before its last slash. -/
def directoryOf (path : String) : String :=
  String.ofList (path.toList.reverse.dropWhile (· ≠ '/')).reverse

/-- A report is written, in a directory that is made if needed. -/
def writeReport (path text : String) : IO Unit := do
  let directory := directoryOf path
  unless directory.isEmpty do
    IO.FS.createDirAll directory
  IO.FS.writeFile path text

/-- A command is carried out twice: once to see how long it takes, and once to tell it. -/
def carryOut (fs : FileSystem) (stamp : Stamp) (args : List String) :
    IO (Option Command.Outcome) := do
  let start ← IO.monoMsNow
  let status := (Command.runArgs ⟨fs, timingsOf 0, stamp⟩ args).map (·.status)
  let stop ← if status = some 0 then IO.monoMsNow else pure start
  return Command.runArgs ⟨fs, timingsOf (stop - start), stamp⟩ args

end CallAtlas

open CallAtlas in
/-- The entry point. -/
def main (args : List String) : IO UInt32 := do
  let document := (Json.read? (← (← IO.getStdin).readToEnd)).getD .null
  match fileSystemOf? document with
  | none =>
    IO.eprintln "error: the standard input is no document of files"
    return 1
  | some fs =>
    match ← carryOut fs (stampOf document) args with
    | none =>
      repeat IO.sleep 1000
      return 1
    | some outcome =>
      IO.print outcome.output
      IO.eprint outcome.errors
      if let some (path, text) := outcome.written then
        writeReport path text
      return UInt32.ofNat outcome.status
