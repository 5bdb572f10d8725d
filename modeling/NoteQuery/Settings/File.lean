import NoteQuery.Json.Reader
import NoteQuery.Json.Writer
import NoteQuery.Settings.Basic

/-! # The settings file

The settings are kept as JSON in a file. Without a file the defaults hold; a file that cannot be
read or that holds no settings is never overwritten, since settings are loaded before they are
saved.
-/

namespace NoteQuery

open Json

/-- The format that a JSON value shows: its name, or an object that has the name as its only key. -/
def OutputFormat.ofJson? : Value → Option OutputFormat
  | .string name => name.text? >>= ofText?
  | .object [(name, .null)] => name.text? >>= ofText?
  | _ => none
where
  /-- The format with a given name. -/
  ofText? (name : Text) : Option OutputFormat :=
    [OutputFormat.json, .text].find? fun format => format.name.toList == name

namespace Settings

/-- The settings as a JSON value. -/
def toJson (settings : Settings) : Value :=
  .record [("format", .ofText settings.format.name.toList), ("pretty", .bool settings.pretty)]

/-- The settings that a JSON value shows; one that is missing has its default. -/
def ofJson? (value : Value) : Option Settings := do
  let defaults : Settings := {}
  let fields ← value.fields? ["format", "pretty"] 0
  let format ← fields.default? "format" defaults.format OutputFormat.ofJson?
  let pretty ← fields.default? "pretty" defaults.pretty Value.bool?
  return { format, pretty }

end Settings

/-- What stands in the place of the settings file. -/
inductive SettingsFile where
  /-- There is no file, and one can be written. -/
  | absent
  /-- There is a file with a text. -/
  | text (content : Text)
  /-- There is something that cannot be read as a text. -/
  | unreadable
  /-- There is no file, and none can be written. -/
  | blocked
  deriving DecidableEq, Repr

namespace SettingsFile

/-- The text of the file, if it has one. -/
def content? : SettingsFile → Option Text
  | text content => some content
  | _ => none

/-- The settings in the file. -/
def load : SettingsFile → Except Failure Settings
  | absent | blocked => .ok {}
  | unreadable => .error .file
  | text content =>
      match Value.parse? content >>= Settings.ofJson? with
      | some settings => .ok settings
      | none => .error .malformed

/-- The file with other settings. -/
def save (settings : Settings) : SettingsFile → Except Failure SettingsFile
  | absent | text _ => .ok (text (settings.toJson.render .indented))
  | unreadable | blocked => .error .file

end SettingsFile

end NoteQuery
