import NoteQuery.Proofs.Reference.Decomposition
import NoteQuery.Proofs.Reference.Writable

/-! # Records of compiled queries

Every record of a compiled query is well formed (`Descriptor.wellFormed_of_compile`): its modifiers
and its name can be spelled, and its data filter has no empty path, no blank at the ends of its
pattern, and balanced braces. Each pass makes such records whatever text it receives
(`TagReference.Recorded.wellFormed`, `AttributeReference.wellFormed_of_mem_records`), so it does not
matter what the passes before it made of the query, and the tag filters of attributes, which are
read by passes of their own, are no exception.
-/

namespace NoteQuery

open Delimiters (braces)

namespace DataFilter

variable {body : Text}

/-- No path is empty, and paths consist of their characters only; the pattern has no blank at its
ends, and its braces are balanced. -/
structure WellFormed (filter : DataFilter) : Prop where
  paths : ∀ path ∈ filter.expressions, path ≠ [] ∧ ∀ c ∈ path, isPath c = true
  starts : ∀ c ∈ filter.pattern.head?, isBlank c = false
  ends : ∀ c ∈ filter.pattern.getLast?, isBlank c = false
  balanced : braces.Balanced filter.pattern

/-- A data filter is well formed when the text between its braces is balanced. -/
theorem wellFormed_ofBody (balanced : braces.Balanced body) : (ofBody body).WellFormed := by
  obtain ⟨starts, ends⟩ := Text.trim_eq_self_iff.mp
    (Text.trim_trim (Piece.numbered .expression 0 (pieces true body)))
  refine ⟨?_, starts, ends, (balanced_numbered_pieces balanced true).trim⟩
  intro path member
  exact ⟨ne_nil_of_mem_records member, isPath_of_mem_records member⟩

end DataFilter

namespace TagReference

variable {spelling : Spelling} {text : Text} {tag : TagReference}

/-- A tag that can be written, with a well-formed data filter if it has one. -/
structure WellFormed (tag : TagReference) : Prop extends Writable tag where
  filtered : ∀ filter ∈ tag.filter, filter.WellFormed

/-- A record that was read from a text is well formed. -/
theorem Recorded.wellFormed (recorded : tag.Recorded spelling text) : tag.WellFormed := by
  refine ⟨recorded.writable, ?_⟩
  intro filter filtered
  obtain ⟨body, _, balanced, rfl⟩ := recorded.filtered filter filtered
  exact DataFilter.wellFormed_ofBody balanced

end TagReference

namespace AttributeReference

variable {spelling : Spelling} {text : Text} {reference : AttributeReference}

/-- An attribute whose name can be spelled, with well-formed tag filters if it has some. -/
structure WellFormed (reference : AttributeReference) : Prop where
  named : reference.toQualifiedName.Fits .bracketed
  listed : ∀ filters ∈ reference.tagFilters, ∀ tag ∈ filters, tag.WellFormed

/-- A pass makes well-formed records, since its tag filters are records of passes. -/
theorem wellFormed_of_mem_records
    (member : reference ∈ Piece.records (scan spelling text).pieces) : reference.WellFormed := by
  refine ⟨(fits_of_mem_records member).bracketed, ?_⟩
  intro filters some_filters tag listed
  have recorded : ∃ reference ∈ Piece.records (scan spelling text).pieces,
      tag ∈ reference.tagFilters.getD [] := ⟨reference, member, by rwa [some_filters]⟩
  obtain ⟨_, _, _, _, _, _, read, found⟩ := mem_tagFilters_scan_iff.mp recorded
  obtain ⟨_, _, _, recorded⟩ := (mem_readTagFilters_iff read).mp found
  exact (TagReference.recorded_of_mem_records recorded).wellFormed

end AttributeReference

namespace Descriptor

variable {query : Text} {descriptor : Descriptor}

/-- **The records of a compiled query are well formed.** -/
theorem wellFormed_of_compile (compiled : compile query = .ok descriptor) :
    (∀ tag ∈ descriptor.tagReferences, tag.WellFormed) ∧
      ∀ reference ∈ descriptor.attributeReferences, reference.WellFormed := by
  constructor
  · intro tag member
    obtain ⟨_, _, _, _, recorded⟩ := (mem_tagReferences_iff compiled).mp member
    exact (TagReference.recorded_of_mem_records recorded).wellFormed
  · intro reference member
    obtain ⟨_, _, _, _, recorded⟩ := (mem_attributeReferences_iff compiled).mp member
    exact AttributeReference.wellFormed_of_mem_records recorded

/-- A data filter that holds the placeholder of a tag, and tag filters one of which has the
placeholder of an attribute for its data filter. -/
theorem wellFormed_of_compile_nested :
    ∃ descriptor, compile
        "#?~[S p.T]\x7b \x7b#a\x7d (.x.y) \x7d @[P q].On(b@c|~u\x7b .z \x7d)".toList =
          .ok descriptor ∧
      descriptor.tagReferences.map TagReference.filter =
        [none, some ⟨"\x7b\x7btag0\x7d\x7d (\x7bexp0\x7d)".toList, ["x.y".toList]⟩] ∧
      descriptor.attributeReferences.map
          (fun reference => reference.tagFilters.map (List.map TagReference.filter)) =
        [none, some [some ⟨"attr0".toList, []⟩, some ⟨"\x7bexp0\x7d".toList, ["z".toList]⟩]] ∧
      (∀ tag ∈ descriptor.tagReferences, tag.WellFormed) ∧
      ∀ reference ∈ descriptor.attributeReferences, reference.WellFormed := by
  have compiled : compile
      "#?~[S p.T]\x7b \x7b#a\x7d (.x.y) \x7d @[P q].On(b@c|~u\x7b .z \x7d)".toList = .ok
      { filter := some "\x7btag1\x7d \x7battr1\x7d".toList
        order := none
        groupings := []
        tagReferences :=
          [{ space := none, name := ['a'], searchDepth := 1, strictSearchDepth := true,
             includeOwner := false },
           { space := some "S p".toList, name := ['T'], searchDepth := 1,
             strictSearchDepth := false, includeOwner := true,
             filter :=
               some ⟨"\x7b\x7btag0\x7d\x7d (\x7bexp0\x7d)".toList, ["x.y".toList]⟩ }]
        attributeReferences :=
          [{ space := none, name := ['c'], mustExist := false, tagFilters := none },
           { space := none, name := "P q".toList, mustExist := false,
             tagFilters := some [
               { space := none, name := ['b'], searchDepth := 0, strictSearchDepth := true,
                 includeOwner := true, filter := some ⟨"attr0".toList, []⟩ },
               { space := none, name := ['u'], searchDepth := 0, strictSearchDepth := true,
                 includeOwner := true,
                 filter := some ⟨"\x7bexp0\x7d".toList, ["z".toList]⟩ }] }] } := by
    decide +kernel
  exact ⟨_, compiled, by decide +kernel, by decide +kernel, wellFormed_of_compile compiled⟩

end Descriptor

end NoteQuery
