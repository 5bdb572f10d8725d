import NoteQuery.Query.Exchange
import NoteQuery.Settings.File

/-! # Reports

A command that does not fail answers with a report: the queries it compiled, the settings if it was
about them, and messages.
-/

namespace NoteQuery

/-- The weight of a message. -/
inductive MessageLevel where
  | info
  | success
  | warning
  | error
  deriving DecidableEq, Repr

/-- A message of a command. -/
structure Message where
  level : MessageLevel
  content : String
  deriving DecidableEq, Repr

/-- A compiled query with its source, and the number of its line when it was read from a file. -/
structure CompiledQuery where
  source : Text
  line : Option Nat
  descriptor : Descriptor
  deriving DecidableEq, Repr

namespace CompiledQuery

/-- A query of a file as a JSON value. -/
def toJson (query : CompiledQuery) : Json.Value :=
  .record [("line", .ofOption .ofNat query.line), ("query", .ofText query.source),
    ("descriptor", query.descriptor.toJson)]

end CompiledQuery

/-- The answer of a command. -/
structure Report where
  compiled : List CompiledQuery := []
  settings : Option Settings := none
  messages : List Message := []
  deriving DecidableEq, Repr

namespace Report

/-- The messages that report an error. -/
def errors (report : Report) : List Message :=
  report.messages.filter (·.level == .error)

/-- Whether a message reports an error. -/
def hasErrors (report : Report) : Bool :=
  report.messages.any (·.level == .error)

end Report

end NoteQuery
