import NoteQuery.Query.Error

/-! # Failures

What can go wrong in a command, as causes. The wording is in the functions `message`.
-/

namespace NoteQuery

/-- Why a setting cannot be changed. -/
inductive SettingsError where
  | unknownKey (key : String)
  | invalidFormat (value : String)
  | invalidPretty (value : String)
  deriving DecidableEq, Repr

/-- The error in words; a format is quoted in lower case, in which it was looked up. -/
def SettingsError.message : SettingsError → String
  | .unknownKey key => "Unknown config key: " ++ key
  | .invalidFormat value =>
      "Invalid format '" ++ value.toLower ++ "' (expected 'json' or 'text')"
  | .invalidPretty value => "Invalid value '" ++ value ++ "' for pretty (expected true or false)"

/-- Why a command fails. -/
inductive Failure where
  | query (error : QueryError)
  | settings (error : SettingsError)
  /-- No word of a query was given. -/
  | noQuery
  /-- Some of the queries in a file cannot be compiled. -/
  | queriesFailed (count : Nat) (path : String)
  /-- A file cannot be read or written. What the system says about it is not kept. -/
  | file
  /-- The settings file holds no settings. What is wrong with its text is not kept. -/
  | malformed
  deriving DecidableEq, Repr

/-- The failure in words. Of a file that cannot be used and of malformed settings these are only the
words in front of the colon, since the detail behind it is not kept. -/
def Failure.message : Failure → String
  | .query error => "Query error: " ++ error.message
  | .settings error => "Config error: " ++ error.message
  | .noQuery => "Api Error: No query given"
  | .queriesFailed count path =>
      "Api Error: " ++ toString count ++ " of the queries in " ++ path ++ " failed to compile"
  | .file => "IO error"
  | .malformed => "Serialization error"

end NoteQuery
