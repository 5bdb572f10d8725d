import NoteQuery.Proofs.Json.Fields
import NoteQuery.Settings.File

/-! # Settings kept in a file

Settings that are saved are loaded again (`SettingsFile.load_of_save`). A change concerns the
setting that its key names and no other one (`Settings.value_of_set`), and it is refused exactly
when no setting with this key admits the value (`Settings.exists_set_eq_error_iff`).
-/

namespace NoteQuery

open Json

namespace Setting

/-- Whether a word, in any case, is a value of a setting. -/
def Admits (word : String) : Setting → Prop
  | .format => word.toLower ∈ ["json", "text"]
  | .pretty =>
      word.toLower ∈ ["true", "yes", "on", "1"] ∨ word.toLower ∈ ["false", "no", "off", "0"]

instance (word : String) : (setting : Setting) → Decidable (setting.Admits word)
  | .format => inferInstanceAs (Decidable (_ ∈ _))
  | .pretty => inferInstanceAs (Decidable (_ ∈ _ ∨ _ ∈ _))

variable {setting : Setting} {key word : String}

/-- A setting is found by its key. -/
theorem ofKey?_eq_some_iff : ofKey? key = some setting ↔ setting.key = key := by
  constructor
  · intro found
    have matched := List.find?_some found
    exact beq_iff_eq.mp matched
  · rintro rfl
    cases setting <;> rfl

/-- Different settings have different keys. -/
theorem key_injective : Function.Injective Setting.key := by
  intro first second same
  exact Option.some.inj
    ((ofKey?_eq_some_iff.mpr rfl).symm.trans (ofKey?_eq_some_iff.mpr same.symm))

/-- No setting is found exactly by the words that are no key. -/
theorem ofKey?_eq_none_iff : ofKey? key = none ↔ ∀ setting : Setting, setting.key ≠ key := by
  simp only [Option.eq_none_iff_forall_ne_some, ne_eq, ofKey?_eq_some_iff]

/-- A word names a format exactly when the format setting admits it. -/
theorem ofName?_isSome_iff : (OutputFormat.ofName? word).isSome ↔ format.Admits word := by
  unfold OutputFormat.ofName? Admits
  split
  · rename_i same
    simp [same]
  · rename_i same
    simp [same]
  · rename_i json text
    simpa using ⟨json, text⟩

/-- A word stands for a truth value exactly when the setting for the layout admits it. -/
theorem truthOfWord?_isSome_iff : (truthOfWord? word).isSome ↔ pretty.Admits word := by
  unfold truthOfWord? Admits
  split
  · rename_i affirmed
    exact iff_of_true rfl (.inl (List.contains_iff_mem.mp affirmed))
  · rename_i unaffirmed
    rw [List.contains_iff_mem] at unaffirmed
    split
    · rename_i denied
      exact iff_of_true rfl (.inr (List.contains_iff_mem.mp denied))
    · rename_i undenied
      rw [List.contains_iff_mem] at undenied
      exact iff_of_false Bool.false_ne_true fun admitted => admitted.elim unaffirmed undenied

end Setting

namespace Settings

variable {settings changed : Settings} {key word : String}

/-- What a change that is not refused does: it replaces the value of one setting. -/
theorem set_eq_ok_iff :
    settings.set key word = .ok changed ↔
      (Setting.format.key = key ∧ ∃ format, OutputFormat.ofName? word = some format ∧
        changed = { settings with format }) ∨
      (Setting.pretty.key = key ∧ ∃ pretty, truthOfWord? word = some pretty ∧
        changed = { settings with pretty }) := by
  rw [set]
  cases found : Setting.ofKey? key with
  | none =>
      have unknown := Setting.ofKey?_eq_none_iff.mp found
      simp [unknown]
  | some setting =>
      rw [Setting.ofKey?_eq_some_iff] at found
      subst found
      cases setting with
      | format => cases OutputFormat.ofName? word <;> simp [Setting.key, eq_comm]
      | pretty => cases truthOfWord? word <;> simp [Setting.key, eq_comm]

/-- A change leaves the other settings as they are. -/
theorem value_of_set (accepted : settings.set key word = .ok changed) {setting : Setting}
    (other : setting.key ≠ key) : changed.value setting = settings.value setting := by
  rcases set_eq_ok_iff.mp accepted with ⟨rfl, format, _, rfl⟩ | ⟨rfl, pretty, _, rfl⟩
  · cases setting with
    | format => exact absurd rfl other
    | pretty => rfl
  · cases setting with
    | format => rfl
    | pretty => exact absurd rfl other

/-- A change is refused exactly when no setting with its key admits the word. -/
theorem exists_set_eq_error_iff :
    (∃ error, settings.set key word = .error error) ↔
      ∀ setting : Setting, setting.key = key → ¬ setting.Admits word := by
  rw [set]
  cases found : Setting.ofKey? key with
  | none =>
      have unknown := Setting.ofKey?_eq_none_iff.mp found
      exact iff_of_true ⟨_, rfl⟩ fun setting named => absurd named (unknown setting)
  | some setting =>
      rw [Setting.ofKey?_eq_some_iff] at found
      subst found
      have only : (∀ other : Setting, other.key = setting.key → ¬ other.Admits word) ↔
          ¬ setting.Admits word := by
        constructor
        · intro refused
          exact refused setting rfl
        · intro refused other same
          rwa [Setting.key_injective same]
      rw [only]
      cases setting with
      | format =>
          rw [← Setting.ofName?_isSome_iff]
          cases OutputFormat.ofName? word <;> simp
      | pretty =>
          rw [← Setting.truthOfWord?_isSome_iff]
          cases truthOfWord? word <;> simp

/-- Only a word that a setting admits is accepted for it. -/
theorem exists_admits_of_set (accepted : settings.set key word = .ok changed) :
    ∃ setting : Setting, setting.key = key ∧ setting.Admits word := by
  by_contra unadmitted
  obtain ⟨error, refused⟩ : ∃ error, settings.set key word = .error error :=
    exists_set_eq_error_iff.mpr fun setting named admitted => unadmitted ⟨setting, named, admitted⟩
  rw [refused] at accepted
  cases accepted

/-- The key of a setting gives the value of the setting. -/
theorem get?_key (settings : Settings) (setting : Setting) :
    settings.get? setting.key = some (settings.value setting) := by
  rw [get?, Setting.ofKey?_eq_some_iff.mpr rfl, Option.map_some]

/-- No value is found exactly for the words that are no key. -/
theorem get?_eq_none_iff :
    settings.get? key = none ↔ ∀ setting : Setting, setting.key ≠ key := by
  rw [get?, Option.map_eq_none_iff, Setting.ofKey?_eq_none_iff]

end Settings

/-- A format is decoded from its name. -/
theorem OutputFormat.ofJson?_name (format : OutputFormat) :
    ofJson? (.ofText format.name.toList) = some format := by
  cases format <;> rfl

namespace Settings

variable {settings : Settings}

/-- The value of settings is plain, so what is written for it is read back. -/
theorem isPlain_toJson (settings : Settings) : settings.toJson.IsPlain := by
  refine .record ?_
  simp only [List.forall_mem_cons]
  exact ⟨.string _, .bool _, fun _ => nofun⟩

/-- Settings are decoded from their value. -/
theorem ofJson?_toJson (settings : Settings) : ofJson? settings.toJson = some settings := by
  obtain ⟨format, pretty⟩ := settings
  rw [ofJson?, toJson, Value.fields?_record (by simp) (by simp)]
  simp only [Option.bind_eq_bind, Option.bind_some, Option.pure_def, Fields.default?,
    List.lookup_cons, String.reduceBEq, OutputFormat.ofJson?_name, Value.bool?_bool]

end Settings

namespace SettingsFile

variable {settings : Settings} {file written : SettingsFile}

/-- Whether a file can be read and written; without one, the defaults are read. -/
inductive Accessible : SettingsFile → Prop where
  | absent : Accessible absent
  | text (content : Text) : Accessible (text content)

/-- Settings can be saved in a file that can be used. -/
theorem Accessible.exists_save (accessible : file.Accessible) (settings : Settings) :
    ∃ written, file.save settings = .ok written := by
  cases accessible <;> exact ⟨_, rfl⟩

/-- A file in which settings were saved can be used. -/
theorem accessible_of_save (saved : file.save settings = .ok written) : written.Accessible := by
  cases file <;> cases saved <;> exact .text _

/-- Settings that are saved are loaded again. -/
theorem load_of_save (saved : file.save settings = .ok written) : written.load = .ok settings := by
  have read : Value.parse? (settings.toJson.render .indented) = some settings.toJson := by
    have padded := Value.parse?_render_append settings.isPlain_toJson .indented
      (List.forall_mem_nil (fun c => isSpace c = true))
    rwa [List.append_nil] at padded
  have same : written = .text (settings.toJson.render .indented) := by
    cases file <;> cases saved <;> rfl
  rw [same, load, read, Option.bind_eq_bind, Option.bind_some, settings.ofJson?_toJson]

end SettingsFile

end NoteQuery
