import NoteQuery.Command.Report

/-! # Showing and changing the settings

A change that is refused is reported as a message and leaves the file as it was.
-/

namespace NoteQuery.Command

/-- What to do with the settings. -/
inductive SettingsAction where
  | showAll
  | showKey (key : String)
  | set (key value : String)
  deriving DecidableEq, Repr

/-- Shows or changes the settings in a file. -/
def configure (action : SettingsAction) (file : SettingsFile) :
    Except Failure Report × SettingsFile :=
  match file.load with
  | .error failure => (.error failure, file)
  | .ok settings =>
      match action with
      | .showAll => (.ok { settings := some settings }, file)
      | .showKey key =>
          let message : Message :=
            match settings.get? key with
            | some value => ⟨.info, value⟩
            | none => ⟨.error, (SettingsError.unknownKey key).message⟩
          (.ok { messages := [message] }, file)
      | .set key value =>
          match settings.set key value with
          | .error error => (.ok { messages := [⟨.error, (Failure.settings error).message⟩] }, file)
          | .ok changed =>
              match file.save changed with
              | .error failure => (.error failure, file)
              | .ok written =>
                  let shown := (changed.get? key).getD value
                  (.ok { settings := some changed,
                         messages := [⟨.success, key ++ " set to " ++ shown⟩] }, written)

end NoteQuery.Command
