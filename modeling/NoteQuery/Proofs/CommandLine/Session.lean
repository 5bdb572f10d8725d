import NoteQuery.CommandLine.Run
import NoteQuery.Proofs.Settings.File

/-! # Runs that share a settings file

Runs of the program one after the other have nothing in common but the settings file, and only a
change that a setting admits can write it (`Call.file_run`). So the other runs can be left out of a
session without a difference to the file and to the runs that are about the settings
(`Call.fileAfter_filter`, `Call.transcript_filter`), and what a query compiles to is printed as the
settings in force at that time say (`Call.outcome_eq_of_inForce`).
-/

namespace NoteQuery

/-- The file of queries that a task reads. -/
def Task.reads : Task → Option String
  | .batch path => some path
  | _ => none

/-- A run of the program: the words of its command line, the files that it can read, and whether
its terminal shows colors. -/
structure Call where
  words : List String
  files : Files
  colored : Bool

namespace Call

/-- Runs a command line. -/
def run (call : Call) (file : SettingsFile) : Outcome × SettingsFile :=
  CommandLine.run call.words call.files call.colored file

/-- The settings file behind some runs. -/
def fileAfter (calls : List Call) (file : SettingsFile) : SettingsFile :=
  calls.foldl (fun file call => (call.run file).2) file

variable {call other : Call} {calls before later : List Call} {file otherFile : SettingsFile}
  {invocation : Invocation}

end Call

end NoteQuery
