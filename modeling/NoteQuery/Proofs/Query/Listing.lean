import NoteQuery.Query.Listing
import NoteQuery.Proofs.Query.DataFilters
import NoteQuery.Proofs.Reference.WrittenAttribute

/-! # The references in a listing

A listing shows each reference of a compiled query as it is written in a query. Extracting it from
there gives the record back exactly when the record is readable
(`Descriptor.extract_written_of_compile`). Without braces in the query all tags are
(`Descriptor.extract_written_tag_of_unbraced`).
-/

namespace NoteQuery

namespace Descriptor

variable {query : Text} {descriptor : Descriptor}

/-- The passes for tags read records that can be written. -/
theorem exists_recorded_tag {tag : TagReference} (compiled : compile query = .ok descriptor)
    (member : tag ∈ descriptor.tagReferences) : ∃ spelling text, tag.Recorded spelling text := by
  obtain ⟨_, spelling, text, _, recorded⟩ := (mem_tagReferences_iff compiled).mp member
  exact ⟨spelling, text, TagReference.recorded_of_mem_records recorded⟩

/-- The passes for attributes read records that can be written. -/
theorem recorded_attribute {reference : AttributeReference}
    (compiled : compile query = .ok descriptor)
    (member : reference ∈ descriptor.attributeReferences) : reference.Recorded := by
  obtain ⟨_, spelling, text, received, recorded⟩ :=
    (mem_attributeReferences_iff compiled).mp member
  obtain ⟨_, _, _, _, _, received⟩ := received.exists_clause_of_attribute
  exact AttributeReference.recorded_of_receives received recorded

/-- **The references of a compiled query are read back** from what is written exactly when they are
readable. -/
theorem extract_written_of_compile (compiled : compile query = .ok descriptor) :
    (∀ tag ∈ descriptor.tagReferences,
      TagReference.extract tag.written [] = ⟨.ok (Placeholder.tag.numbered 0), [tag]⟩ ↔
        tag.Readable) ∧
      ∀ reference ∈ descriptor.attributeReferences,
        AttributeReference.extract reference.written [] =
            ⟨.ok (Placeholder.attribute.numbered 0), [reference]⟩ ↔
          reference.Readable := by
  constructor
  · intro tag member
    obtain ⟨_, _, recorded⟩ := exists_recorded_tag compiled member
    exact TagReference.extract_written_iff recorded []
  · intro reference member
    exact AttributeReference.extract_written_iff (recorded_attribute compiled member) []

/-- A data filter, tag filters and names in brackets are read back. -/
theorem extract_written_of_note :
    ∃ descriptor, compile "##?Person\x7b .height > 1.8 \x7d @[My Price].On(Shop|~#[A b])".toList =
        .ok descriptor ∧
      descriptor.tagReferences.map TagReference.written =
        ["##?Person\x7b.height > 1.8\x7d".toList] ∧
      descriptor.attributeReferences.map AttributeReference.written =
        ["@[My Price].On(~Shop|#~[A b])".toList] ∧
      (∀ tag ∈ descriptor.tagReferences, tag.Readable) ∧
      ∀ reference ∈ descriptor.attributeReferences, reference.Readable := by
  have compiled : compile
      "##?Person\x7b .height > 1.8 \x7d @[My Price].On(Shop|~#[A b])".toList = .ok
      { filter := some "\x7btag0\x7d \x7battr0\x7d".toList
        order := none
        groupings := []
        tagReferences :=
          [{ space := none, name := "Person".toList, searchDepth := 2, strictSearchDepth := false,
             includeOwner := false,
             filter := some ⟨"\x7bexp0\x7d > 1.8".toList, ["height".toList]⟩ }]
        attributeReferences :=
          [{ space := none, name := "My Price".toList, mustExist := false,
             tagFilters := some [
               { space := none, name := "Shop".toList, searchDepth := 0, strictSearchDepth := true,
                 includeOwner := true },
               { space := none, name := "A b".toList, searchDepth := 1, strictSearchDepth := true,
                 includeOwner := true }] }] } := by
    decide +kernel
  obtain ⟨tags, attributes⟩ := extract_written_of_compile compiled
  refine ⟨_, compiled, by decide +kernel, by decide +kernel, ?_, ?_⟩
  · intro tag member
    refine (tags tag member).mp ?_
    revert tag
    decide +kernel
  · intro reference member
    refine (attributes reference member).mp ?_
    revert reference
    decide +kernel

/-- The written data filter looks like the placeholder of a tag, so it is not read as one. -/
theorem extract_written_of_placeholder :
    ∃ descriptor, compile "#a\x7b tag0 \x7d".toList = .ok descriptor ∧
      ∃ tag ∈ descriptor.tagReferences, tag.written = "#a\x7btag0\x7d".toList ∧
        TagReference.extract tag.written [] =
          ⟨.ok "\x7btag0\x7d\x7btag0\x7d".toList, [{ tag with filter := none }]⟩ ∧
        TagReference.extract tag.written [] ≠ ⟨.ok (Placeholder.tag.numbered 0), [tag]⟩ := by
  let tag : TagReference :=
    { space := none, name := ['a'], searchDepth := 1, strictSearchDepth := true,
      includeOwner := false, filter := some ⟨"tag0".toList, []⟩ }
  have compiled : compile "#a\x7b tag0 \x7d".toList = .ok
      { filter := some "\x7btag0\x7d".toList
        order := none
        groupings := []
        tagReferences := [tag]
        attributeReferences := [] } := by
    decide +kernel
  exact ⟨_, compiled, tag, by decide, by decide +kernel, by decide +kernel, by decide +kernel⟩

/-- **Without braces in the query** all tags are read back from what is written. -/
theorem extract_written_tag_of_unbraced (compiled : compile query = .ok descriptor)
    (unbraced : '{' ∉ query) :
    ∀ tag ∈ descriptor.tagReferences,
      TagReference.extract tag.written [] = ⟨.ok (Placeholder.tag.numbered 0), [tag]⟩ := by
  intro tag member
  obtain ⟨_, spelling, text, received, recorded⟩ := (mem_tagReferences_iff compiled).mp member
  have known := TagReference.recorded_of_mem_records recorded
  have unfiltered := TagReference.filter_of_unfiltered (received.unfiltered unbraced) recorded
  exact (TagReference.extract_written_iff known []).mpr
    (TagReference.readable_of_filter_eq_none known unfiltered)

end Descriptor

end NoteQuery
