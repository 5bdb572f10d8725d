import NoteQuery.CommandLine.Run
import NoteQuery.Proofs.Settings.File

/-! # What an exit code says

A run of a task that fails ends with the exit code 1 and a line about the failure, and every other
run with the exit code 0 (`Invocation.run_ends`). An error in a report is not always a failure: what
the settings refuse (`Task.Refused`) is told in a message of a run that does not fail.
-/

namespace NoteQuery

namespace Command

variable {words : List String} {report : Report} {action : SettingsAction} {file : SettingsFile}

/-- Compiling and checking a query differ only in the report that they make at the end. -/
theorem hasErrors_of_query {make : Text → Descriptor → Report}
    (clean : ∀ source descriptor, (make source descriptor).hasErrors = false)
    (reported : (do
      let source ← joinWords words
      let descriptor ← (Descriptor.compile source).mapError Failure.query
      return make source descriptor) = .ok report) :
    report.hasErrors = false := by
  cases joined : joinWords words with
  | error failure =>
      rw [joined] at reported
      cases reported
  | ok source =>
      rw [joined] at reported
      simp only [bind, Except.bind] at reported
      cases compiled : Descriptor.compile source with
      | error error =>
          rw [compiled, Except.mapError] at reported
          cases reported
      | ok descriptor =>
          rw [compiled, Except.mapError] at reported
          cases reported
          exact clean source descriptor

/-- A query that is compiled comes without messages. -/
theorem hasErrors_of_compile (reported : compile words = .ok report) :
    report.hasErrors = false :=
  hasErrors_of_query (fun _ _ => rfl) reported

/-- A check reports success, and at most a warning beside it. -/
theorem hasErrors_of_check (reported : check words = .ok report) : report.hasErrors = false := by
  refine hasErrors_of_query ?_ reported
  intro source descriptor
  cases descriptor.filter <;> rfl

namespace SettingsAction

/-- What all settings refuse: to show one that there is not, and to change one to a word that it
does not admit. -/
def Refused : SettingsAction → Prop
  | showAll => False
  | showKey key => ∀ setting : Setting, setting.key ≠ key
  | set key word => ∀ setting : Setting, setting.key = key → ¬ setting.Admits word

end SettingsAction

/-- The settings report an error exactly when they can be loaded and refuse an action. -/
theorem hasErrors_configure_iff :
    (∃ report, (configure action file).1 = .ok report ∧ report.hasErrors = true) ↔
      (∃ settings, file.load = .ok settings) ∧ action.Refused := by
  rw [configure]
  cases loaded : file.load with
  | error failure => simp
  | ok settings =>
      simp only [Except.ok.injEq, exists_eq', true_and]
      cases action with
      | showAll => simp [Report.hasErrors, SettingsAction.Refused]
      | showKey key =>
          rw [SettingsAction.Refused, ← settings.get?_eq_none_iff]
          cases found : settings.get? key <;> simp [found, Report.hasErrors]
      | set key word =>
          rw [SettingsAction.Refused, ← settings.exists_set_eq_error_iff]
          cases outcome : settings.set key word with
          | error error => simp [outcome, Report.hasErrors]
          | ok changed =>
              cases saved : file.save changed <;> simp [outcome, saved, Report.hasErrors]

end Command

namespace Task

variable {task : Task} {files : Files} {file : SettingsFile} {report : Report}

/-- A task succeeds with a report that has no errors. -/
def Succeeds (task : Task) (files : Files) (file : SettingsFile) : Prop :=
  ∃ report, (task.perform files file).1 = .ok report ∧ report.hasErrors = false

/-- How a task fails: in its command, or because some of the queries in a file cannot be
compiled. -/
inductive Fails (files : Files) (file : SettingsFile) : Task → Failure → Prop where
  | command {task : Task} {failure : Failure}
    (failed : (task.perform files file).1 = .error failure) : Fails files file task failure
  | queries {path : String} {report : Report}
    (reported : (perform (.batch path) files file).1 = .ok report)
    (errors : report.hasErrors = true) :
    Fails files file (.batch path) (.queriesFailed report.errors.length path)

/-- The settings can be loaded and refuse what a task asks of them. -/
def Refused (task : Task) (file : SettingsFile) : Prop :=
  ∃ action, task = .settings action ∧ (∃ settings, file.load = .ok settings) ∧ action.Refused

/-- What the settings refuse is reported as an error. -/
theorem Refused.hasErrors (refused : task.Refused file) (files : Files) :
    ∃ report, (task.perform files file).1 = .ok report ∧ report.hasErrors = true := by
  obtain ⟨action, rfl, refused⟩ := refused
  exact Command.hasErrors_configure_iff.mpr refused

theorem Refused.not_succeeds (refused : task.Refused file) : ¬ task.Succeeds files file := by
  obtain ⟨report, reported, errors⟩ := refused.hasErrors files
  rintro ⟨other, same, clean⟩
  cases reported.symm.trans same
  rw [errors] at clean
  cases clean

/-- A failure that a task makes of its report is about the queries in a file. -/
theorem fails_of_failure? (reported : (task.perform files file).1 = .ok report)
    {failure : Failure} (failed : task.failure? report = some failure) :
    task.Fails files file failure := by
  cases task with
  | batch path =>
      rw [failure?] at failed
      split at failed
      · rename_i errors
        cases failed
        exact .queries reported errors
      · cases failed
  | compile query => cases failed
  | check query => cases failed
  | settings action => cases failed

/-- A report is no failure when it has no errors, and also when the settings refuse the task. -/
theorem failure?_eq_none_iff (reported : (task.perform files file).1 = .ok report) :
    task.failure? report = none ↔ report.hasErrors = false ∨ task.Refused file := by
  cases task with
  | compile query => exact iff_of_true rfl (.inl (Command.hasErrors_of_compile reported))
  | check query => exact iff_of_true rfl (.inl (Command.hasErrors_of_check reported))
  | batch path =>
      have accepted : ¬ (batch path).Refused file := nofun
      rw [failure?, or_iff_left accepted]
      cases report.hasErrors <;> simp
  | settings action =>
      refine iff_of_true rfl ?_
      cases errors : report.hasErrors with
      | false => exact .inl rfl
      | true =>
          exact .inr ⟨action, rfl, Command.hasErrors_configure_iff.mp ⟨report, reported, errors⟩⟩

/-- A task succeeds, or the settings refuse it, exactly when it has no failure. -/
theorem succeeds_or_refused_iff (reported : (task.perform files file).1 = .ok report) :
    task.Succeeds files file ∨ task.Refused file ↔ task.failure? report = none := by
  have clean : task.Succeeds files file ↔ report.hasErrors = false := by
    simp only [Succeeds, reported, Except.ok.injEq, exists_eq_left']
  rw [clean, failure?_eq_none_iff reported]

end Task

namespace Invocation

variable {invocation : Invocation} {files : Files} {colored : Bool} {file : SettingsFile}

/-- How a run ends: with the failure of its task, or without one because the task succeeds or the
settings refuse it. -/
theorem run_ends (invocation : Invocation) (files : Files) (colored : Bool)
    (file : SettingsFile) :
    ∃ output failure?, (invocation.run files colored file).1 = .finished output failure? ∧
      (∀ failure ∈ failure?, invocation.task.Fails files file failure) ∧
      (failure? = none ↔ invocation.task.Succeeds files file ∨ invocation.task.Refused file) := by
  cases performed : invocation.task.perform files file with
  | mk result written =>
      have answered : (invocation.task.perform files file).1 = result := by rw [performed]
      cases result with
      | error failure =>
          refine ⟨[], some failure, by rw [run, performed], ?_, ?_⟩
          · rintro _ ⟨⟩
            exact .command answered
          · refine iff_of_false nofun ?_
            rintro (⟨report, reported, _⟩ | refused)
            · cases answered.symm.trans reported
            · obtain ⟨report, reported, _⟩ := refused.hasErrors files
              cases answered.symm.trans reported
      | ok report =>
          refine ⟨_, invocation.task.failure? report, by rw [run, performed], ?_, ?_⟩
          · intro failure failed
            exact Task.fails_of_failure? answered failed
          · exact (Task.succeeds_or_refused_iff answered).symm

end Invocation

namespace CommandLine

variable {words : List String} {invocation : Invocation}

/-- **The exit code of a run says how its task ended.** For all arguments that are a task and
whatever the files hold, the exit code is 0 exactly when the task succeeds with a report without
errors or the settings refuse it, which they never do without reporting an error. In both cases no
line about a failure is printed; with the only other exit code, 1, one is, and it names what made
the task fail. -/
theorem exitCode_run (read : Arguments.read words = .ok invocation) (files : Files)
    (colored : Bool) (file : SettingsFile) :
    ((run words files colored file).1.exitCode = 0 ↔
      invocation.task.Succeeds files file ∨ invocation.task.Refused file) ∧
    (invocation.task.Refused file → ¬ invocation.task.Succeeds files file) ∧
    ((run words files colored file).1.exitCode = 0 ∧
        (run words files colored file).1.errorLine? = none ∨
      (run words files colored file).1.exitCode = 1 ∧
        ∃ failure, invocation.task.Fails files file failure ∧
          (run words files colored file).1.errorLine? = some ("Error: " ++ failure.message)) := by
  have same : run words files colored file = invocation.run files colored file := by
    rw [run, read]
  obtain ⟨output, failure?, ended, fails, succeeds⟩ := invocation.run_ends files colored file
  rw [same, ended]
  refine ⟨?_, Task.Refused.not_succeeds, ?_⟩
  · rw [← succeeds]
    cases failure? <;> simp [Outcome.exitCode]
  · cases failure? with
    | none => exact .inl ⟨rfl, rfl⟩
    | some failure => exact .inr ⟨rfl, failure, fails failure rfl, rfl⟩

/-- A query is checked and the run ends with 0; one with an unclosed brace is refused and the run
ends with 1. -/
theorem exitCode_run_query :
    (Arguments.read ["-f", "text", "check", "#a", "ORDER", "BY", "#b"] =
        .ok { task := .check ["#a", "ORDER", "BY", "#b"], format := some .text } ∧
      (run ["-f", "text", "check", "#a", "ORDER", "BY", "#b"] (fun _ => none) true
        .unreadable).1.exitCode = 0) ∧
    Arguments.read ["compile", "#a\x7b"] =
        .ok { task := .compile ["#a\x7b"], format := none } ∧
      (run ["compile", "#a\x7b"] (fun _ => none) false .absent).1.exitCode = 1 ∧
      ∃ failure : Failure, (run ["compile", "#a\x7b"] (fun _ => none) false .absent).1.errorLine? =
        some ("Error: " ++ failure.message) := by
  have checked : Arguments.read ["-f", "text", "check", "#a", "ORDER", "BY", "#b"] =
      .ok { task := .check ["#a", "ORDER", "BY", "#b"], format := some .text } := by decide +kernel
  have compiled : Arguments.read ["compile", "#a\x7b"] =
      .ok { task := .compile ["#a\x7b"], format := none } := by decide +kernel
  have succeeds : Task.Succeeds (.check ["#a", "ORDER", "BY", "#b"]) (fun _ => none)
      .unreadable :=
    ⟨{ messages := [⟨.success, "ok: 2 tag references, 0 attribute references, ordered"⟩] },
      by decide +kernel, rfl⟩
  have ended : (run ["compile", "#a\x7b"] (fun _ => none) false .absent).1.exitCode ≠ 0 := by
    decide +kernel
  refine ⟨⟨checked, (exitCode_run checked _ true .unreadable).1.mpr (.inl succeeds)⟩,
    compiled, ?_⟩
  rcases (exitCode_run compiled (fun _ => none) false .absent).2.2 with
    ⟨accepted, _⟩ | ⟨refused, failure, _, line⟩
  · exact absurd accepted ended
  · exact ⟨refused, failure, line⟩

/-- A key that no setting has is reported as an error, and still the run ends with 0. -/
theorem exitCode_of_unknown_key :
    Arguments.read ["config", "nope"] =
        .ok { task := .settings (.showKey "nope"), format := none } ∧
      Task.perform (.settings (.showKey "nope")) (fun _ => none) .absent =
        (.ok { messages := [⟨.error, "Unknown config key: nope"⟩] }, .absent) ∧
      ¬ Task.Succeeds (.settings (.showKey "nope")) (fun _ => none) .absent ∧
      (run ["config", "nope"] (fun _ => none) false .absent).1.exitCode = 0 ∧
      (run ["config", "nope"] (fun _ => none) false .absent).1.errorLine? = none := by
  have unknown : ∀ setting : Setting, setting.key ≠ "nope" := by
    intro setting
    cases setting <;> decide
  have refused : Task.Refused (.settings (.showKey "nope")) .absent :=
    ⟨_, rfl, ⟨_, rfl⟩, unknown⟩
  exact ⟨by decide +kernel, by decide +kernel, refused.not_succeeds, by decide +kernel,
    by decide +kernel⟩

end CommandLine

end NoteQuery
