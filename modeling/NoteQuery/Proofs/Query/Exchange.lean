import NoteQuery.CommandLine.Run
import NoteQuery.Proofs.Json.Fields
import NoteQuery.Proofs.Query.Depths

/-! # Compiled queries read back from JSON

Each record is decoded from the JSON value that it is encoded as, so a compiled query is read back
from its JSON text in both layouts. The command line prints this text, and what it prints is read
back to what the query compiles to (`Descriptor.parse?_render`). The only numbers in a compiled
query are depths, which must fit into 64 bits; those of a query that is not longer than that do.
-/

namespace NoteQuery

open Json

/-- A text that may be absent is decoded from its value. -/
theorem option?_text (text : Option Text) :
    Value.option? Value.text? (.ofOption .ofText text) = some text :=
  Value.option?_ofOption (fun _ _ => Value.noConfusion) fun text _ => Value.text?_ofText text

namespace DataFilter

theorem toJson_ne_null (filter : DataFilter) : filter.toJson ≠ .null :=
  Value.noConfusion

/-- The value of a data filter is plain: its strings are texts. -/
theorem isPlain_toJson (filter : DataFilter) : filter.toJson.IsPlain := by
  refine .record ?_
  simp only [List.forall_mem_cons]
  exact ⟨.string _, .ofList fun _ _ => .string _, fun _ => nofun⟩

/-- A data filter is decoded from its value. -/
theorem ofJson?_toJson (filter : DataFilter) : ofJson? filter.toJson = some filter := by
  rw [ofJson?, toJson, Value.fields?_record (by simp) (by simp)]
  simp only [Option.bind_eq_bind, Option.bind_some, Option.pure_def, Fields.required?,
    List.lookup_cons, String.reduceBEq, Value.text?_ofText, Value.list?_ofList, implies_true]

/-- A data filter is decoded also where there might be none, since its value is not `null`. -/
theorem option?_toJson (filter : DataFilter) :
    Value.option? ofJson? filter.toJson = some (some filter) := by
  rw [Value.option?_of_ne_null filter.toJson_ne_null, ofJson?_toJson, Option.map_some]

end DataFilter

namespace TagReference

/-- The value of a tag reference is plain: its depth is a natural number. -/
theorem isPlain_toJson (reference : TagReference) : reference.toJson.IsPlain := by
  refine .record ?_
  simp only [List.forall_mem_append, List.forall_mem_cons, List.forall_mem_map, Option.mem_toList]
  exact ⟨⟨.ofOption fun _ _ => .string _, .string _, .number _, .bool _, .bool _, fun _ => nofun⟩,
    fun filter _ => filter.isPlain_toJson⟩

/-- A tag reference is decoded from its value when its depth fits into 64 bits. -/
theorem ofJson?_toJson {reference : TagReference} (small : reference.searchDepth < UInt64.size) :
    ofJson? reference.toJson = some reference := by
  obtain ⟨⟨space, name⟩, ⟨depth, strict, owner⟩, filter⟩ := reference
  have read : Value.nat? (.ofNat depth) = some depth := Value.nat?_ofNat small
  rw [ofJson?, toJson]
  cases filter with
  | none =>
      rw [Value.fields?_record (by simp) (by simp)]
      simp only [Option.toList_none, List.map_nil, List.append_nil, Option.bind_eq_bind,
        Option.bind_some, Option.pure_def, Fields.option?, Fields.default?, Fields.required?,
        List.lookup_cons, List.lookup_nil, String.reduceBEq, Value.text?_ofText, Value.bool?_bool,
        read, option?_text]
  | some filter =>
      rw [Value.fields?_record (by simp) (by simp)]
      simp only [Option.toList_some, List.map_cons, List.map_nil, List.cons_append, List.nil_append,
        Option.bind_eq_bind, Option.bind_some, Option.pure_def, Fields.option?, Fields.default?,
        Fields.required?, List.lookup_cons, String.reduceBEq, Value.text?_ofText, Value.bool?_bool,
        read, option?_text, filter.option?_toJson]

end TagReference

namespace AttributeReference

/-- The value of an attribute reference is plain, since those of its tag filters are. -/
theorem isPlain_toJson (reference : AttributeReference) : reference.toJson.IsPlain := by
  refine .record ?_
  simp only [List.forall_mem_cons]
  exact ⟨.ofOption fun _ _ => .string _, .string _, .bool _,
    .ofOption fun filters _ => .ofList fun filter _ => filter.isPlain_toJson, fun _ => nofun⟩

/-- An attribute reference is decoded from its value when the depths of its tag filters fit into 64
bits. -/
theorem ofJson?_toJson {reference : AttributeReference}
    (small : ∀ filters ∈ reference.tagFilters, ∀ filter ∈ filters,
      filter.searchDepth < UInt64.size) :
    ofJson? reference.toJson = some reference := by
  obtain ⟨⟨⟨space, name⟩, mustExist⟩, tagFilters⟩ := reference
  have filters : Value.option? (Value.list? TagReference.ofJson?)
      (.ofOption (.ofList TagReference.toJson) tagFilters) = some tagFilters :=
    Value.option?_ofOption (fun _ _ => Value.noConfusion) fun filters found =>
      Value.list?_ofList fun filter member =>
        TagReference.ofJson?_toJson (small filters found filter member)
  rw [ofJson?, toJson, Value.fields?_record (by simp) (by simp)]
  simp only [Option.bind_eq_bind, Option.bind_some, Option.pure_def, Fields.option?,
    Fields.default?, Fields.required?, List.lookup_cons, String.reduceBEq, Value.text?_ofText,
    Value.bool?_bool, option?_text, filters]

end AttributeReference

namespace Grouping

theorem isPlain_toJson (grouping : Grouping) : grouping.toJson.IsPlain := by
  refine .record ?_
  simp only [List.forall_mem_cons]
  exact ⟨.string _, .ofOption fun _ _ => .string _, fun _ => nofun⟩

/-- A grouping is decoded from its value, with its label or without one. -/
theorem ofJson?_toJson (grouping : Grouping) : ofJson? grouping.toJson = some grouping := by
  rw [ofJson?, toJson, Value.fields?_record (by simp) (by simp)]
  simp only [Option.bind_eq_bind, Option.bind_some, Option.pure_def, Fields.option?,
    Fields.default?, Fields.required?, List.lookup_cons, String.reduceBEq, Value.text?_ofText,
    option?_text]

end Grouping

namespace Descriptor

variable {descriptor : Descriptor}

/-- Every depth in the records of a compiled query is a number of 64 bits. -/
structure HasSmallDepths (descriptor : Descriptor) : Prop where
  tagReferences : ∀ reference ∈ descriptor.tagReferences, reference.searchDepth < UInt64.size
  tagFilters : ∀ reference ∈ descriptor.attributeReferences, ∀ filters ∈ reference.tagFilters,
    ∀ filter ∈ filters, filter.searchDepth < UInt64.size

/-- The value of a compiled query is plain, so what is written for it is read back. -/
theorem isPlain_toJson (descriptor : Descriptor) : descriptor.toJson.IsPlain := by
  refine .record ?_
  simp only [List.forall_mem_append, List.forall_mem_cons]
  refine ⟨⟨⟨.ofOption fun _ _ => .string _, .ofOption fun _ _ => .string _, fun _ => nofun⟩, ?_⟩,
    .ofList fun reference _ => reference.isPlain_toJson,
    .ofList fun reference _ => reference.isPlain_toJson, fun _ => nofun⟩
  split
  · exact fun _ => nofun
  · exact List.forall_mem_singleton.mpr (.ofList fun grouping _ => grouping.isPlain_toJson)

/-- A compiled query is decoded from its value, in which the list of groupings is left out when it
is empty. -/
theorem ofJson?_toJson (small : descriptor.HasSmallDepths) :
    ofJson? descriptor.toJson = some descriptor := by
  obtain ⟨⟨filter, order, groupings⟩, tagReferences, attributeReferences⟩ := descriptor
  have tags : Value.list? TagReference.ofJson? (.ofList TagReference.toJson tagReferences) =
      some tagReferences :=
    Value.list?_ofList fun reference member =>
      TagReference.ofJson?_toJson (small.tagReferences reference member)
  have attributes : Value.list? AttributeReference.ofJson?
      (.ofList AttributeReference.toJson attributeReferences) = some attributeReferences :=
    Value.list?_ofList fun reference member =>
      AttributeReference.ofJson?_toJson (small.tagFilters reference member)
  rw [ofJson?, toJson]
  cases groupings with
  | nil =>
      rw [Value.fields?_record (by simp) (by simp)]
      simp only [List.isEmpty_nil, ↓reduceIte, List.append_nil, List.cons_append, List.nil_append,
        Option.bind_eq_bind, Option.bind_some, Option.pure_def, Fields.option?, Fields.default?,
        Fields.required?, List.lookup_cons, List.lookup_nil, String.reduceBEq, option?_text, tags,
        attributes]
  | cons grouping groupings =>
      have grouped : Value.list? Grouping.ofJson?
          (.ofList Grouping.toJson (grouping :: groupings)) = some (grouping :: groupings) :=
        Value.list?_ofList fun grouping _ => grouping.ofJson?_toJson
      rw [Value.fields?_record (by simp) (by simp)]
      simp only [List.isEmpty_cons, Bool.false_eq_true, ↓reduceIte, List.cons_append,
        List.nil_append, Option.bind_eq_bind, Option.bind_some, Option.pure_def, Fields.option?,
        Fields.default?, Fields.required?, List.lookup_cons, String.reduceBEq, option?_text, tags,
        attributes, grouped]

/-- Depths are counted in the query, so those of a query that fits into memory fit into 64 bits. -/
theorem hasSmallDepths_of_compile {query : Text} (compiled : compile query = .ok descriptor)
    (short : query.length < UInt64.size) : descriptor.HasSmallDepths where
  tagReferences _ recorded :=
    ((searchDepth_le compiled (.inl recorded)).trans List.count_le_length).trans_lt short
  tagFilters reference recorded filters listed _ member :=
    ((searchDepth_le compiled (.inr ⟨reference, recorded, filters, listed, member⟩)).trans
      List.count_le_length).trans_lt short

/-- A compiled query is read back from its JSON text, also when blanks stand behind it. -/
theorem parse?_render_append (small : descriptor.HasSmallDepths) (layout : Layout) {blanks : Text}
    (blank : ∀ c ∈ blanks, isSpace c = true) :
    parse? (descriptor.render layout ++ blanks) = some descriptor := by
  rw [parse?, render, Value.parse?_render_append descriptor.isPlain_toJson layout blank,
    Option.bind_eq_bind, Option.bind_some, ofJson?_toJson small]

end Descriptor

/-- Compiling a query on the command line prints its JSON text. -/
theorem Invocation.run_compile {invocation : Invocation} {words : List String} {source : Text}
    {descriptor : Descriptor} {files : Files} {colored : Bool} {file : SettingsFile}
    (task : invocation.task = .compile words)
    (format : (invocation.settings file).format = .json)
    (joined : Command.joinWords words = .ok source)
    (compiled : Descriptor.compile source = .ok descriptor) :
    invocation.run files colored file =
      (.finished (descriptor.render (invocation.settings file).layout ++ ['\n']) none, file) := by
  have report : Command.compile words =
      .ok { compiled := [{ source, line := none, descriptor }] } := by
    simp only [Command.compile, joined, compiled, bind, Except.bind, Except.mapError, pure,
      Except.pure]
  rw [run, task, Task.perform, report]
  simp only [Task.outputLines, Report.compiledLines, format, Report.messageLines, unlines,
    Task.failure?, List.map_nil, List.append_nil, List.flatMap_cons, List.flatMap_nil]

/-- **A compiled query is read back from JSON.** Its text in either layout is read to the same
compiled query when the depths fit into 64 bits, and so is what the command line prints when it
compiles a query to JSON. -/
theorem Descriptor.parse?_render :
    (∀ (descriptor : Descriptor) (layout : Layout), descriptor.HasSmallDepths →
      parse? (descriptor.render layout) = some descriptor) ∧
    ∀ (invocation : Invocation) (words : List String) (source : Text) (descriptor : Descriptor)
      (files : Files) (colored : Bool) (file : SettingsFile),
      invocation.task = .compile words → (invocation.settings file).format = .json →
      Command.joinWords words = .ok source → compile source = .ok descriptor →
      source.length < UInt64.size →
        ∃ output, invocation.run files colored file = (.finished output none, file) ∧
          parse? output = some descriptor := by
  refine ⟨fun descriptor layout small => ?_, ?_⟩
  · have read : parse? (descriptor.render layout ++ []) = some descriptor :=
      parse?_render_append small layout fun _ => nofun
    rwa [List.append_nil] at read
  · intro invocation words source descriptor files colored file task format joined compiled short
    refine ⟨_, Invocation.run_compile task format joined compiled, ?_⟩
    exact parse?_render_append (hasSmallDepths_of_compile compiled short) _ (by simp [isSpace])

/-- A query with escaped characters in its data filter is read back. -/
theorem Descriptor.parse?_render_note :
    let note : Descriptor :=
      { filter := some "\x7btag0\x7d".toList
        order := some "\x7battr0\x7d".toList
        groupings := []
        tagReferences := [{ space := some ['S'], name := ['T'], searchDepth := 2,
                            strictSearchDepth := false, includeOwner := true,
                            filter := some ⟨"\x7bexp0\x7d > \"\t\"".toList, [['b']]⟩ }]
        attributeReferences :=
          [{ space := none, name := ['c'], mustExist := false,
             tagFilters := some [{ space := none, name := ['d'], searchDepth := 0,
                                   strictSearchDepth := true, includeOwner := true }] }] }
    let words := ["##?~S.T\x7b.b > \"\t\"\x7d", "ORDER BY @c.On(d)"]
    (∀ layout, parse? (note.render layout) = some note) ∧
      ∃ output, Invocation.run ⟨.compile words, some .json⟩ (fun _ => none) false .absent =
          (.finished output none, .absent) ∧
        parse? output = some note := by
  intro note words
  have compiled : compile "##?~S.T\x7b.b > \"\t\"\x7d ORDER BY @c.On(d)".toList = .ok note := by
    decide +kernel
  have small : note.HasSmallDepths := ⟨by decide, by decide⟩
  exact ⟨fun layout => parse?_render.1 note layout small,
    parse?_render.2 ⟨.compile words, some .json⟩ words _ note (fun _ => none) false .absent rfl rfl
      rfl compiled (by decide)⟩

end NoteQuery
