import NoteQuery.CommandLine.Run

/-! # The program

Reads the settings file and the file of queries that a command line names, runs the command line,
and writes what it answers.
-/

namespace NoteQuery.Program

/-- The bytes of a file, unless it cannot be read. -/
def bytesOfFile (path : String) : IO (Option ByteArray) := do
  try return some (← IO.FS.readBinFile path)
  catch _ => return none

/-- The directory of the settings file. -/
def settingsDirectory : IO String := do
  match ← IO.getEnv "NOTUQL_HOME" with
  | some directory => return directory
  | none =>
      match ← IO.getEnv "XDG_CONFIG_HOME", ← IO.getEnv "HOME" with
      | some directory, _ => return directory ++ "/notuql"
      | none, some home => return home ++ "/.config/notuql"
      | none, none => return "."

/-- Whether output is colored: as the environment demands, and otherwise on a terminal. -/
def isColored : IO Bool := do
  let forced := ((← IO.getEnv "CLICOLOR_FORCE").getD "0") != "0"
  let refused := (← IO.getEnv "NO_COLOR").isSome || (← IO.getEnv "CLICOLOR") == some "0"
  return forced || (!refused && (← (← IO.getStdout).isTty))

/-- What stands in the place of the settings file. -/
def readSettingsFile (path : String) : IO SettingsFile := do
  match ← bytesOfFile path with
  | some bytes =>
      match String.fromUTF8? bytes with
      | some content => return .text content.toList
      | none => return .unreadable
  | none =>
      match ← (IO.FS.Handle.mk path .read).toBaseIO with
      | .error (.noFileOrDirectory ..) => return .absent
      | .error (.inappropriateType ..) => return .blocked
      | _ => return .unreadable

/-- The path of the file of queries that a command line names. -/
def queryFile? (words : List String) : Option String :=
  match Arguments.read words with
  | .ok { task := .batch path, .. } => some path
  | _ => none

end NoteQuery.Program

open NoteQuery NoteQuery.Program

/-- Runs the command line of the program. -/
def main (words : List String) : IO UInt32 := do
  let directory ← settingsDirectory
  let path := directory ++ "/config.json"
  let before ← readSettingsFile path
  let queries ← match queryFile? words with
    | some path => bytesOfFile path
    | none => pure none
  let (outcome, after) := CommandLine.run words (fun _ => queries) (← isColored) before
  if after != before then
    try
      IO.FS.createDirAll directory
      IO.FS.writeFile path (String.ofList (after.content?.getD []))
    catch _ =>
      IO.eprintln Failure.file.errorLine
      return 1
  IO.print (String.ofList outcome.output)
  if let some line := outcome.errorLine? then IO.eprintln line
  return outcome.exitCode.toUInt32
