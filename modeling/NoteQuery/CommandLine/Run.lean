import NoteQuery.Command.Batch
import NoteQuery.Command.Query
import NoteQuery.CommandLine.Arguments
import NoteQuery.CommandLine.Style
import NoteQuery.Query.Listing

/-! # Running a command line

A run performs the task of a command line, prints its report and ends with an exit code. Settings
that cannot be loaded only matter to the command that is about them; the others use the defaults.
-/

namespace NoteQuery

/-- The contents of the files that can be read, by their paths. -/
abbrev Files := String → Option ByteArray

/-- The line about a failure. -/
def Failure.errorLine (failure : Failure) : String :=
  "Error: " ++ failure.message

/-- How a run ends: without a task because the arguments are misused, or with an output and the
failure, if there was one. -/
inductive Outcome where
  | misused
  | finished (output : Text) (failure : Option Failure)
  deriving DecidableEq, Repr

namespace Outcome

/-- The exit code of a run. -/
def exitCode : Outcome → Nat
  | misused => 2
  | finished _ (some _) => 1
  | finished _ none => 0

/-- The text that a run prints. -/
def output : Outcome → Text
  | misused => []
  | finished output _ => output

/-- The line that a run prints about its failure, or about the misuse of its arguments. -/
def errorLine? : Outcome → Option String
  | misused => some "Usage: notuql [OPTIONS] <COMMAND>"
  | finished _ failure => failure.map Failure.errorLine

end Outcome

namespace Message

/-- The style of a message. -/
def style (message : Message) : Style :=
  match message.level with
  | .info => .dimmed
  | .success => .green
  | .warning => .yellow
  | .error => .red

/-- A message as a line of output. -/
def outputLine (colored : Bool) (message : Message) : Text :=
  message.style.paint colored message.content.toList

end Message

namespace Descriptor

/-- The listing of a compiled query as lines of output. -/
def outputLines (colored : Bool) (descriptor : Descriptor) : List Text :=
  (descriptor.clauseLines.map fun line =>
      Style.dimmed.paint colored line.paddedLabel ++ line.content) ++
    descriptor.referenceLines.map fun line =>
      Style.yellow.paint colored line.paddedLabel ++ line.content

/-- Without colors these are the lines of the listing, one by one. -/
theorem outputLines_uncolored (descriptor : Descriptor) :
    descriptor.outputLines false =
      descriptor.listing.map fun line => line.paddedLabel ++ line.content := by
  rw [outputLines, listing, List.map_append]
  rfl

end Descriptor

namespace CompiledQuery

/-- The line above the listing of a query of a file. -/
def heading (query : CompiledQuery) : Text :=
  match query.line with
  | some line => "line ".toList ++ Text.ofNat line ++ [':', ' '] ++ query.source
  | none => query.source

end CompiledQuery

namespace Settings

/-- The layout of JSON output. -/
def layout (settings : Settings) : Json.Layout :=
  if settings.pretty then .indented else .compact

/-- The lines that show all settings. -/
def outputLines (settings : Settings) : List Text :=
  Setting.all.map fun setting => (setting.key ++ " = " ++ settings.value setting).toList

end Settings

namespace Report

/-- The compiled queries as lines of output: of a single query only what it compiles to, of the
queries of a file also where they stand. -/
def compiledLines (report : Report) (settings : Settings) (colored ofFile : Bool) : List Text :=
  match settings.format, ofFile with
  | .json, true =>
      [(Json.Value.ofList CompiledQuery.toJson report.compiled).render settings.layout]
  | .json, false =>
      match report.compiled with
      | [query] => [query.descriptor.render settings.layout]
      | queries =>
          [(Json.Value.ofList (·.descriptor.toJson) queries).render settings.layout]
  | .text, true =>
      [[]].intercalate <| report.compiled.map fun query =>
        Style.bold.paint colored query.heading :: query.descriptor.outputLines colored
  | .text, false =>
      [[]].intercalate (report.compiled.map (·.descriptor.outputLines colored))

/-- The messages as lines of output. -/
def messageLines (report : Report) (colored : Bool) : List Text :=
  report.messages.map (Message.outputLine colored)

end Report

namespace Task

/-- Performs a task. -/
def perform (task : Task) (files : Files) (file : SettingsFile) :
    Except Failure Report × SettingsFile :=
  match task with
  | .compile query => (Command.compile query, file)
  | .check query => (Command.check query, file)
  | .batch path => (Command.batch path (files path), file)
  | .settings action => Command.configure action file

/-- The lines that a task prints about its report. -/
def outputLines (task : Task) (settings : Settings) (colored : Bool) (report : Report) :
    List Text :=
  match task with
  | .compile _ => report.compiledLines settings colored false ++ report.messageLines colored
  | .check _ => report.messageLines colored
  | .batch _ => report.compiledLines settings colored true ++ report.messageLines colored
  | .settings _ =>
      (report.settings.map Settings.outputLines).getD [] ++ report.messageLines colored

/-- The failure that a task makes of its report. -/
def failure? (task : Task) (report : Report) : Option Failure :=
  match task with
  | .batch path =>
      if report.hasErrors then some (.queriesFailed report.errors.length path) else none
  | _ => none

end Task

/-- Lines as one text, with a line feed behind each. -/
def unlines (lines : List Text) : Text :=
  lines.flatMap (· ++ ['\n'])

namespace Invocation

/-- The settings that an invocation uses. -/
def settings (invocation : Invocation) (file : SettingsFile) : Settings :=
  let loaded := file.load.toOption.getD {}
  { loaded with format := invocation.format.getD loaded.format }

/-- Performs the task of an invocation and prints its report. -/
def run (invocation : Invocation) (files : Files) (colored : Bool) (file : SettingsFile) :
    Outcome × SettingsFile :=
  match invocation.task.perform files file with
  | (.error failure, file) => (.finished [] (some failure), file)
  | (.ok report, written) =>
      let lines := invocation.task.outputLines (invocation.settings file) colored report
      (.finished (unlines lines) (invocation.task.failure? report), written)

end Invocation

namespace CommandLine

/-- The answer to a question for the version. -/
def versionText : Text :=
  "notuql 0.1.0\n".toList

/-- The answer to a question for help. -/
def helpText : Text :=
  unlines <| List.map String.toList
    ["Compile note queries into structured descriptors",
      "",
      "Usage: notuql [OPTIONS] <COMMAND>",
      "",
      "Commands:",
      "  compile <QUERY>...    Print what a query compiles to",
      "  check <QUERY>...      Summarize the references of a query",
      "  batch <PATH>          Compile the queries of a file, one per line",
      "  config [KEY] [VALUE]  Show or change the settings",
      "",
      "Options:",
      "  -f, --format <FORMAT>  Print as json or text",
      "  -v, --verbose          Log more",
      "  -h, --help             Print help",
      "  -V, --version          Print version"]

/-- Runs a command line. -/
def run (words : List String) (files : Files) (colored : Bool) (file : SettingsFile) :
    Outcome × SettingsFile :=
  match Arguments.read words with
  | .ok invocation => invocation.run files colored file
  | .error .help => (.finished helpText none, file)
  | .error .version => (.finished versionText none, file)
  | .error .misuse => (.misused, file)

end CommandLine

end NoteQuery
