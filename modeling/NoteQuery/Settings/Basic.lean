import NoteQuery.Failure

/-! # Settings

The settings say how compiled queries are printed: the format, and whether JSON is laid out over
several lines. A setting is named by its key and shown and changed by way of texts.
-/

namespace NoteQuery

/-- How compiled queries are printed. -/
inductive OutputFormat where
  | json
  | text
  deriving DecidableEq, Repr

namespace OutputFormat

/-- The name of a format. -/
def name : OutputFormat → String
  | json => "json"
  | text => "text"

/-- The format with a given name, in any case. -/
def ofName? (name : String) : Option OutputFormat :=
  match name.toLower with
  | "json" => some json
  | "text" => some text
  | _ => none

end OutputFormat

/-- The settings and their defaults. -/
structure Settings where
  format : OutputFormat := .json
  pretty : Bool := true
  deriving DecidableEq, Repr

/-- A single setting. -/
inductive Setting where
  | format
  | pretty
  deriving DecidableEq, Repr

namespace Setting

/-- The settings in the order in which they are listed. -/
def all : List Setting :=
  [format, pretty]

/-- The key of a setting. -/
def key : Setting → String
  | format => "format"
  | pretty => "pretty"

/-- The setting with a given key. -/
def ofKey? (key : String) : Option Setting :=
  all.find? (·.key == key)

end Setting

/-- The truth value that a word stands for, in any case. -/
def truthOfWord? (word : String) : Option Bool :=
  if ["true", "yes", "on", "1"].contains word.toLower then some true
  else if ["false", "no", "off", "0"].contains word.toLower then some false
  else none

namespace Settings

/-- The value of a setting. -/
def value (settings : Settings) : Setting → String
  | .format => settings.format.name
  | .pretty => toString settings.pretty

/-- The value of the setting with a given key. -/
def get? (settings : Settings) (key : String) : Option String :=
  (Setting.ofKey? key).map settings.value

/-- The settings with the value of one of them changed. -/
def set (settings : Settings) (key value : String) : Except SettingsError Settings :=
  match Setting.ofKey? key with
  | none => .error (.unknownKey key)
  | some .format =>
      match OutputFormat.ofName? value with
      | some format => .ok { settings with format }
      | none => .error (.invalidFormat value)
  | some .pretty =>
      match truthOfWord? value with
      | some pretty => .ok { settings with pretty }
      | none => .error (.invalidPretty value)

end Settings

end NoteQuery
