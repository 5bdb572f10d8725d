import NoteQuery.Command.Configure

/-! # Command line arguments

The words of a command line are options, the name of a command, and the words that belong to it.
Options may stand in front of the name and behind it; those behind it take precedence. A query takes
every word from its first one on, also words that look like options.
-/

namespace NoteQuery

/-- What a command line asks for. -/
inductive Task where
  | compile (query : List String)
  | check (query : List String)
  | batch (path : String)
  | settings (action : Command.SettingsAction)
  deriving DecidableEq, Repr

/-- A task, and the format to use in place of the one in the settings. -/
structure Invocation where
  task : Task
  format : Option OutputFormat
  deriving DecidableEq, Repr

/-- Why a command line is not a task. -/
inductive ArgumentsStop where
  | help
  | version
  | misuse
  deriving DecidableEq, Repr

/-- The options given on one side of the name of the command, each of which may occur once. -/
structure Options where
  format : Option OutputFormat := none
  verbose : Bool := false
  deriving DecidableEq, Repr

namespace Options

/-- The options with a format. -/
def withFormat (options : Options) (value : String) : Except ArgumentsStop Options :=
  match options.format, OutputFormat.ofName? value with
  | none, some format => .ok { options with format := some format }
  | _, _ => .error .misuse

/-- The options with more output. -/
def withVerbose (options : Options) : Except ArgumentsStop Options :=
  if options.verbose then .error .misuse else .ok { options with verbose := true }

end Options

/-- The options known behind an option word, and whether the next word is the value of the last
option in it. -/
structure OptionReading where
  options : Options
  awaitsFormat : Bool := false

namespace OptionReading

/-- Reads the letters of an option word. The letters behind an `f` are its value. -/
def readLetters (versionKnown : Bool) (options : Options) :
    List Char → Except ArgumentsStop OptionReading
  | [] => .ok { options }
  | 'v' :: letters => do readLetters versionKnown (← options.withVerbose) letters
  | ['f'] => .ok { options, awaitsFormat := true }
  | 'f' :: '=' :: value => do return { options := ← options.withFormat (String.ofList value) }
  | 'f' :: value => do return { options := ← options.withFormat (String.ofList value) }
  | 'h' :: _ => .error .help
  | 'V' :: _ => .error (if versionKnown then .version else .misuse)
  | _ => .error .misuse

/-- The name of a long option and the value attached to it. -/
def splitLong (word : Text) : Text × Option Text :=
  match Text.cut? '=' word with
  | some (name, value) => (name, some value)
  | none => (word, none)

/-- Reads a long option. -/
def readLong (versionKnown : Bool) (options : Options) (word : Text) :
    Except ArgumentsStop OptionReading :=
  match splitLong word with
  | (name, value) =>
      if name = "format".toList then
        match value with
        | some value => do return { options := ← options.withFormat (String.ofList value) }
        | none => .ok { options, awaitsFormat := true }
      else if value.isSome then .error .misuse
      else if name = "verbose".toList then do return { options := ← options.withVerbose }
      else if name = "help".toList then .error .help
      else if name = "version".toList ∧ versionKnown then .error .version
      else .error .misuse

/-- Reads an option word; answers nothing when the word is none. -/
def read? (versionKnown : Bool) (options : Options) (word : String) :
    Option (Except ArgumentsStop OptionReading) :=
  match word.toList with
  | '-' :: '-' :: long => some (readLong versionKnown options long)
  | '-' :: letter :: letters => some (readLetters versionKnown options (letter :: letters))
  | _ => none

end OptionReading

namespace Arguments

/-- Whether a word in front of a query is an option and not the first word of the query, which may
have a dash in front too. -/
def precedesQuery (word : String) : Bool :=
  match word.toList with
  | '-' :: '-' :: long =>
      ["format", "verbose", "help"].contains (String.ofList (OptionReading.splitLong long).1)
  | '-' :: letter :: letters => (letter :: letters).all ['f', 'v', 'h'].contains
  | _ => false

/-- Reads the words behind the name of a command that takes a query. Two dashes in front of the
query are not part of it. -/
def readQuery (options : Options) : List String → Except ArgumentsStop (Options × List String)
  | [] => .error .misuse
  | word :: rest =>
      if word = "--" then if rest.isEmpty then .error .misuse else .ok (options, rest)
      else if precedesQuery word then
        match OptionReading.read? false options word with
        | none => .error .misuse
        | some (.error stop) => .error stop
        | some (.ok ⟨options, false⟩) => readQuery options rest
        | some (.ok ⟨options, true⟩) =>
            match rest with
            | [] => .error .misuse
            | value :: rest => do readQuery (← options.withFormat value) rest
      else .ok (options, word :: rest)

/-- Reads at most `room` operands and the options between them. Behind two dashes there are only
operands. -/
def readOperands (room : Nat) (options : Options) :
    List String → Except ArgumentsStop (Options × List String)
  | [] => .ok (options, [])
  | word :: rest =>
      if word = "--" then
        if rest.length ≤ room then .ok (options, rest) else .error .misuse
      else
        match OptionReading.read? false options word with
        | some (.error stop) => .error stop
        | some (.ok ⟨options, false⟩) => readOperands room options rest
        | some (.ok ⟨options, true⟩) =>
            match rest with
            | [] => .error .misuse
            | value :: rest => do readOperands room (← options.withFormat value) rest
        | none =>
            match room with
            | 0 => .error .misuse
            | room + 1 => do
                let (options, operands) ← readOperands room options rest
                return (options, word :: operands)

/-- The file of queries given by some operands. -/
def batchTask : List String → Except ArgumentsStop Task
  | [path] => if path.isEmpty then .error .misuse else .ok (.batch path)
  | _ => .error .misuse

/-- The action on the settings given by some operands. -/
def settingsTask : List String → Except ArgumentsStop Task
  | [] => .ok (.settings .showAll)
  | [key] => .ok (.settings (.showKey key))
  | [key, value] => .ok (.settings (.set key value))
  | _ => .error .misuse

/-- The names of the commands. -/
def commandNames : List String :=
  ["compile", "c", "check", "batch", "config", "help"]

/-- Reads the words behind the name of a command. -/
def readCommand (name : String) (words : List String) :
    Except ArgumentsStop (Options × Task) := do
  match name with
  | "compile" | "c" =>
      let (options, query) ← readQuery {} words
      return (options, .compile query)
  | "check" =>
      let (options, query) ← readQuery {} words
      return (options, .check query)
  | "batch" =>
      let (options, operands) ← readOperands 1 {} words
      return (options, ← batchTask operands)
  | "config" =>
      let (options, operands) ← readOperands 2 {} words
      return (options, ← settingsTask operands)
  | "help" =>
      match words with
      | [] => throw .help
      | [topic] => throw (if commandNames.contains topic then .help else .misuse)
      | _ => throw .misuse
  | _ => throw .misuse

/-- Reads a command line, given the options in front of it. -/
def readFrom (options : Options) : List String → Except ArgumentsStop Invocation
  | [] => .error .misuse
  | word :: rest =>
      if word = "--" then .error .misuse
      else
        match OptionReading.read? true options word with
        | some (.error stop) => .error stop
        | some (.ok ⟨options, false⟩) => readFrom options rest
        | some (.ok ⟨options, true⟩) =>
            match rest with
            | [] => .error .misuse
            | value :: rest => do readFrom (← options.withFormat value) rest
        | none => do
            let (inner, task) ← readCommand word rest
            return { task, format := inner.format.or options.format }

/-- Reads a command line. -/
def read (words : List String) : Except ArgumentsStop Invocation :=
  readFrom {} words

end Arguments

end NoteQuery
