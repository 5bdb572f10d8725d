import NoteQuery.Command.Configure
import NoteQuery.Proofs.Settings.File

/-! # The settings file as settings in memory

Actions on a settings file behave as actions on the settings that it holds: each of them answers
from these settings (`Command.Answers`), and behind any run of actions the file holds the settings
that the changes among them give in memory (`Command.Holds.steps`). A change that is refused leaves
the file as it is, and so does every action on a file that holds no settings.
-/

namespace NoteQuery.Command

/-- A use of the settings: an action on them, or loading them. -/
inductive SettingsStep where
  | act (action : SettingsAction)
  | load
  deriving DecidableEq, Repr

/-- What a use of the settings gives. -/
inductive SettingsAnswer where
  | report (report : Report)
  | settings (settings : Settings)
  deriving DecidableEq, Repr

namespace SettingsStep

/-- A use of the settings in a file. -/
def perform (step : SettingsStep) (file : SettingsFile) :
    Except Failure SettingsAnswer × SettingsFile :=
  match step with
  | act action => ((configure action file).1.map .report, (configure action file).2)
  | load => (file.load.map .settings, file)

/-- The file behind some uses of the settings in it. -/
def fileAfter (steps : List SettingsStep) (file : SettingsFile) : SettingsFile :=
  steps.foldl (fun file step => (step.perform file).2) file

/-- The settings in memory behind a use of them: a change that is refused leaves them as they
are. -/
def applied (settings : Settings) : SettingsStep → Settings
  | act (.set key word) => (settings.set key word).toOption.getD settings
  | _ => settings

/-- The settings in memory behind some uses of them. -/
def settingsAfter (steps : List SettingsStep) (settings : Settings) : Settings :=
  steps.foldl applied settings

end SettingsStep

/-- What a use of some settings answers. -/
inductive Answers (settings : Settings) : SettingsStep → SettingsAnswer → Prop where
  | load : Answers settings .load (.settings settings)
  | all : Answers settings (.act .showAll) (.report { settings := some settings })
  | value (setting : Setting) :
    Answers settings (.act (.showKey setting.key))
      (.report { messages := [⟨.info, settings.value setting⟩] })
  | unknown {key : String} (unknown : ∀ setting : Setting, setting.key ≠ key) :
    Answers settings (.act (.showKey key))
      (.report { messages := [⟨.error, "Unknown config key: " ++ key⟩] })
  | changed {setting : Setting} {word : String} {changed : Settings}
    (admitted : setting.Admits word)
    (accepted : settings.set setting.key word = .ok changed) :
    Answers settings (.act (.set setting.key word))
      (.report { settings := some changed
                 messages := [⟨.success, setting.key ++ " set to " ++ changed.value setting⟩] })
  | refused {key word : String} {error : SettingsError}
    (unadmitted : ∀ setting : Setting, setting.key = key → ¬ setting.Admits word)
    (refused : settings.set key word = .error error) :
    Answers settings (.act (.set key word))
      (.report { messages := [⟨.error, "Config error: " ++ error.message⟩] })

/-- A file that can be read and written holds some settings. -/
structure Holds (file : SettingsFile) (settings : Settings) : Prop where
  accessible : file.Accessible
  loaded : file.load = .ok settings

variable {file next : SettingsFile} {settings : Settings} {failure : Failure}

/-- Nothing is done with a file that cannot be loaded. -/
theorem SettingsStep.perform_of_load_error (failed : file.load = .error failure)
    (step : SettingsStep) : step.perform file = (.error failure, file) := by
  cases step with
  | act action => simp only [perform, configure, failed, Except.map]
  | load => simp only [perform, failed, Except.map]

namespace Holds

/-- **A use of the settings in a file is one of the settings in memory.** It answers from them, the
file holds what they become, and it is written only by a change to a word that the setting with the
given key admits. -/
theorem perform (holds : Holds file settings) (step : SettingsStep) :
    ∃ answer next, step.perform file = (.ok answer, next) ∧ Answers settings step answer ∧
      Holds next (step.applied settings) ∧
      (next = file ∨ ∃ (setting : Setting) (word : String),
        step = .act (.set setting.key word) ∧ setting.Admits word) := by
  have loaded := holds.loaded
  cases step with
  | load =>
      refine ⟨_, file, ?_, .load, holds, .inl rfl⟩
      simp only [SettingsStep.perform, loaded, Except.map]
  | act action =>
      cases action with
      | showAll =>
          refine ⟨_, file, ?_, .all, holds, .inl rfl⟩
          simp only [SettingsStep.perform, configure, loaded, Except.map]
      | showKey key =>
          cases found : Setting.ofKey? key with
          | none =>
              have unknown := Setting.ofKey?_eq_none_iff.mp found
              refine ⟨_, file, ?_, .unknown unknown, holds, .inl rfl⟩
              simp only [SettingsStep.perform, configure, loaded, Except.map,
                Settings.get?_eq_none_iff.mpr unknown]
              rfl
          | some setting =>
              obtain rfl := Setting.ofKey?_eq_some_iff.mp found
              refine ⟨_, file, ?_, .value setting, holds, .inl rfl⟩
              simp only [SettingsStep.perform, configure, loaded, Except.map, Settings.get?_key]
      | set key word =>
          cases outcome : settings.set key word with
          | error error =>
              have unadmitted := Settings.exists_set_eq_error_iff.mp ⟨error, outcome⟩
              have kept : SettingsStep.applied settings (.act (.set key word)) = settings := by
                rw [SettingsStep.applied, outcome]
                rfl
              refine ⟨_, file, ?_, .refused unadmitted outcome, by rwa [kept], .inl rfl⟩
              simp only [SettingsStep.perform, configure, loaded, outcome, Except.map]
              rfl
          | ok changed =>
              obtain ⟨setting, rfl, admitted⟩ := Settings.exists_admits_of_set outcome
              obtain ⟨written, saved⟩ := holds.accessible.exists_save changed
              have become : SettingsStep.applied settings (.act (.set setting.key word)) =
                  changed := by
                rw [SettingsStep.applied, outcome]
                rfl
              have written_holds : Holds written changed :=
                ⟨SettingsFile.accessible_of_save saved, SettingsFile.load_of_save saved⟩
              refine ⟨_, written, ?_, .changed admitted outcome, by rwa [become],
                .inr ⟨setting, word, rfl, admitted⟩⟩
              simp only [SettingsStep.perform, configure, loaded, outcome, saved, Except.map,
                Settings.get?_key, Option.getD_some]

/-- Behind a run of uses the file holds the settings that the run gives in memory. -/
theorem steps (holds : Holds file settings) (steps : List SettingsStep) :
    Holds (SettingsStep.fileAfter steps file) (SettingsStep.settingsAfter steps settings) := by
  induction steps generalizing file settings with
  | nil => exact holds
  | cons step steps ih =>
      obtain ⟨answer, next, performed, _, later, _⟩ := holds.perform step
      rw [SettingsStep.fileAfter, List.foldl_cons, performed]
      exact ih later

end Holds

namespace SettingsStep

/-- A run of uses leaves a file that cannot be loaded as it is. -/
theorem fileAfter_of_load_error (failed : file.load = .error failure) (steps : List SettingsStep) :
    fileAfter steps file = file := by
  induction steps with
  | nil => rfl
  | cons step steps ih => rwa [fileAfter, List.foldl_cons, perform_of_load_error failed step]

/-- A use of the settings changes no setting but the one whose key it names. -/
theorem value_applied (settings : Settings) {step : SettingsStep} {setting : Setting}
    (other : ∀ word, step ≠ .act (.set setting.key word)) :
    (step.applied settings).value setting = settings.value setting := by
  cases step with
  | load => rfl
  | act action =>
      cases action with
      | showAll => rfl
      | showKey key => rfl
      | set key word =>
          have apart : setting.key ≠ key := by
            rintro rfl
            exact other word rfl
          rw [applied]
          cases outcome : settings.set key word with
          | error error => rfl
          | ok changed => exact Settings.value_of_set outcome apart

end SettingsStep

/-- **The settings file keeps the settings in memory.** Behind every run of uses of a file that
holds some settings, loading it gives what the changes of the run that are not refused make of these
in memory; every use answers from them and changes at most the setting whose key it names; and the
file is written only by a change that this setting admits. A file without settings stays as it is,
and every use of it fails. -/
theorem settings_kept (accessible : file.Accessible) (steps : List SettingsStep)
    (step : SettingsStep) :
    (∀ settings, file.load = .ok settings →
      ∃ answer next,
        (SettingsStep.fileAfter steps file).load = .ok (SettingsStep.settingsAfter steps settings) ∧
        step.perform (SettingsStep.fileAfter steps file) = (.ok answer, next) ∧
        Answers (SettingsStep.settingsAfter steps settings) step answer ∧
        next.load = .ok (SettingsStep.settingsAfter (steps ++ [step]) settings) ∧
        (next = SettingsStep.fileAfter steps file ∨ ∃ (setting : Setting) (word : String),
          step = .act (.set setting.key word) ∧ setting.Admits word) ∧
        ∀ setting : Setting, (∀ word, step ≠ .act (.set setting.key word)) →
          (SettingsStep.settingsAfter (steps ++ [step]) settings).value setting =
            (SettingsStep.settingsAfter steps settings).value setting) ∧
    ∀ failure, file.load = .error failure →
      SettingsStep.fileAfter steps file = file ∧ step.perform file = (.error failure, file) := by
  constructor
  · intro settings loaded
    have before : Holds (SettingsStep.fileAfter steps file)
        (SettingsStep.settingsAfter steps settings) := Holds.steps ⟨accessible, loaded⟩ steps
    have behind : SettingsStep.settingsAfter (steps ++ [step]) settings =
        step.applied (SettingsStep.settingsAfter steps settings) := by
      simp only [SettingsStep.settingsAfter, List.foldl_append, List.foldl_cons, List.foldl_nil]
    obtain ⟨answer, next, performed, answers, later, written⟩ := before.perform step
    rw [behind]
    exact ⟨answer, next, before.loaded, performed, answers, later.loaded, written,
      fun setting other => SettingsStep.value_applied _ other⟩
  · intro failure failed
    exact ⟨SettingsStep.fileAfter_of_load_error failed steps,
      step.perform_of_load_error failed⟩

/-- A file that holds the format alone is loaded, its layout is changed and a change of it is
refused; a list of three values holds no settings. -/
theorem settings_kept_text :
    (∃ answer next,
      SettingsFile.load (SettingsStep.fileAfter [.act (.set "pretty" "OFF")]
          (.text "\x7b\"format\": \"text\"\x7d".toList)) =
        .ok { format := .text, pretty := false } ∧
      SettingsStep.perform (.act (.set "pretty" "maybe"))
          (SettingsStep.fileAfter [.act (.set "pretty" "OFF")]
            (.text "\x7b\"format\": \"text\"\x7d".toList)) = (.ok answer, next) ∧
      next.load = .ok { format := .text, pretty := false }) ∧
    SettingsStep.perform .load (.text "[\"text\", true, 0]".toList) =
      (.error .malformed, .text "[\"text\", true, 0]".toList) := by
  have kept := settings_kept (.text "\x7b\"format\": \"text\"\x7d".toList)
    [.act (.set "pretty" "OFF")] (.act (.set "pretty" "maybe"))
  obtain ⟨answer, next, before, performed, _, behind, _⟩ :=
    kept.1 { format := .text, pretty := true } (by decide +kernel)
  have failed : SettingsFile.load (.text "[\"text\", true, 0]".toList) = .error .malformed := by
    decide +kernel
  have run : SettingsStep.settingsAfter [.act (.set "pretty" "OFF")]
      { format := .text, pretty := true } = { format := .text, pretty := false } := by
    decide +kernel
  have refused : SettingsStep.settingsAfter
      ([.act (.set "pretty" "OFF")] ++ [.act (.set "pretty" "maybe")])
      { format := .text, pretty := true } = { format := .text, pretty := false } := by
    decide +kernel
  rw [run] at before
  rw [refused] at behind
  exact ⟨⟨answer, next, before, performed, behind⟩,
    ((settings_kept (.text _) [] .load).2 .malformed failed).2⟩

end NoteQuery.Command
