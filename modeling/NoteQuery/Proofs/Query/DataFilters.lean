import NoteQuery.Proofs.Query.Acceptance
import NoteQuery.Proofs.Query.Clauses
import NoteQuery.Proofs.Reference.PlaceholderFilters

/-! # Data filters in a query without braces

In a query without braces nobody typed a data filter, and the tag records have none. The tag filters
of an attribute have one exactly when a name in brackets lists a tag directly in front of a plain
attribute, whose placeholder stands there by the time the tag filters are read
(`Descriptor.filter_of_compile`).
-/

namespace NoteQuery

open AttributeHead (filtersOpening)

namespace Descriptor

variable {query text : Text} {part : QueryPart} {spelling : Spelling} {descriptor : Descriptor}

/-- The passes for tags receive texts in which no data filter opens. -/
theorem Receives.unfiltered (received : Receives query part .tag spelling text)
    (unbraced : '{' ∉ query) : Unfiltered text := by
  obtain ⟨clause, next, member, received⟩ := received.exists_clause_of_tag
  have start : OnlyPlaceholders [.tag] clause :=
    .of_not_mem (Outline.unbraced_of_mem_clauses unbraced member)
  exact (received.only start List.mem_cons_self).unfiltered

/-- The plain passes for attributes receive texts whose braces are those of the placeholders of
tags. -/
theorem Receives.only_of_plain (received : Receives query part .attribute .plain text)
    (unbraced : '{' ∉ query) : OnlyPlaceholders [.tag] text := by
  obtain ⟨clause, tags, attributes, member, completes, received⟩ :=
    received.exists_clause_of_attribute
  have start : OnlyPlaceholders [.tag] clause :=
    .of_not_mem (Outline.unbraced_of_mem_clauses unbraced member)
  cases received
  exact Phase.only_rewritten start List.mem_cons_self completes

/-- The passes for attributes receive texts whose braces are those of placeholders. -/
theorem Receives.only (received : Receives query part .attribute spelling text)
    (unbraced : '{' ∉ query) : OnlyPlaceholders [.tag, .attribute] text := by
  obtain ⟨clause, tags, attributes, member, completes, received⟩ :=
    received.exists_clause_of_attribute
  have start : OnlyPlaceholders [.tag, .attribute] clause :=
    .of_not_mem (Outline.unbraced_of_mem_clauses unbraced member)
  exact received.only (Phase.only_rewritten start List.mem_cons_self completes)
    (List.mem_cons_of_mem _ List.mem_cons_self)

/-- The tag filters in the records of a compiled query are those that a pass for attributes comes
to. -/
theorem mem_tagFilters_iff {tag : TagReference} (compiled : compile query = .ok descriptor) :
    (∃ reference ∈ descriptor.attributeReferences, tag ∈ reference.tagFilters.getD []) ↔
      ∃ part spelling text head body behind filters,
        Receives query part .attribute spelling text ∧
        AttributeReference.ComesTo spelling text head (filtersOpening ++ (body ++ ')' :: behind)) ∧
        ')' ∉ body ∧ AttributeReference.readTagFilters body = .ok filters ∧ tag ∈ filters := by
  constructor
  · rintro ⟨reference, recorded, member⟩
    obtain ⟨part, spelling, text, received, recorded⟩ :=
      (mem_attributeReferences_iff compiled).mp recorded
    obtain ⟨head, body, behind, filters, comes⟩ :=
      AttributeReference.mem_tagFilters_scan_iff.mp ⟨reference, recorded, member⟩
    exact ⟨part, spelling, text, head, body, behind, filters, received, comes⟩
  · rintro ⟨part, spelling, text, head, body, behind, filters, received, comes⟩
    obtain ⟨reference, recorded, member⟩ :=
      AttributeReference.mem_tagFilters_scan_iff.mpr ⟨head, body, behind, filters, comes⟩
    exact ⟨reference, (mem_attributeReferences_iff compiled).mpr
      ⟨part, spelling, text, received, recorded⟩, member⟩

/-- When a query was compiled, all tag filters that a pass for attributes comes to were read. -/
theorem Receives.exists_readTagFilters {head : AttributeHead} {body behind : Text}
    (received : Receives query part .attribute spelling text)
    (compiled : compile query = .ok descriptor)
    (comes : AttributeReference.ComesTo spelling text head
      (filtersOpening ++ (body ++ ')' :: behind))) (free : ')' ∉ body) :
    ∃ filters, AttributeReference.readTagFilters body = .ok filters :=
  comes.exists_readTagFilters free (received.passFailure_eq_none compiled)

/-- **Data filters come only from braces**, except in tag filters in which a tag stands in front of
the placeholder of an attribute. A query without braces has no data filters in its tag records.
Those in the tag filters of its attribute records are such placeholders, and there are none exactly
when no tag filters of a name in brackets hold a tag directly in front of the placeholder of an
attribute. -/
theorem filter_of_compile (compiled : compile query = .ok descriptor) (unbraced : '{' ∉ query) :
    (∀ tag ∈ descriptor.tagReferences, tag.filter = none) ∧
      (∀ reference ∈ descriptor.attributeReferences, ∀ tag ∈ reference.tagFilters.getD [],
        tag.filter = none ∨ ∃ number, tag.filter = some (.ofAttribute number)) ∧
      ((∀ reference ∈ descriptor.attributeReferences, ∀ tag ∈ reference.tagFilters.getD [],
          tag.filter = none) ↔
        ∀ part text head body behind, Receives query part .attribute .bracketed text →
          AttributeReference.ComesTo .bracketed text head
              (filtersOpening ++ (body ++ ')' :: behind)) →
            ')' ∉ body → ¬ AttributeReference.TagMeetsAttribute body) := by
  refine ⟨?_, ?_, ?_⟩
  · intro tag member
    obtain ⟨part, spelling, text, received, member⟩ := (mem_tagReferences_iff compiled).mp member
    exact TagReference.filter_of_unfiltered (received.unfiltered unbraced) member
  · intro reference recorded tag member
    obtain ⟨part, spelling, text, head, body, behind, filters, received, comes, free, read,
      inside⟩ := (mem_tagFilters_iff compiled).mp ⟨reference, recorded, member⟩
    have only := comes.only_body (received.only unbraced)
    rcases AttributeReference.filter_of_mem_readTagFilters only read inside with
      none | ⟨_, placeholder⟩
    · exact .inl none
    · exact .inr placeholder
  · constructor
    · intro unfiltered part text head body behind received comes free meets
      have only := comes.only_body (received.only unbraced)
      obtain ⟨filters, read⟩ := received.exists_readTagFilters compiled comes free
      obtain ⟨tag, member, filtered⟩ :=
        AttributeReference.exists_filter_of_tagMeetsAttribute only read meets
      obtain ⟨reference, recorded, inside⟩ := (mem_tagFilters_iff compiled).mpr
        ⟨part, .bracketed, text, head, body, behind, filters, received, comes, free, read, member⟩
      exact filtered (unfiltered reference recorded tag inside)
    · intro apart reference recorded tag member
      obtain ⟨part, spelling, text, head, body, behind, filters, received, comes, free, read,
        inside⟩ := (mem_tagFilters_iff compiled).mp ⟨reference, recorded, member⟩
      have only := comes.only_body (received.only unbraced)
      rcases AttributeReference.filter_of_mem_readTagFilters only read inside with
        none | ⟨meets, _⟩
      · exact none
      · cases spelling with
        | bracketed => exact (apart part text head body behind received comes free meets).elim
        | plain =>
            have tags := comes.only_body (received.only_of_plain unbraced)
            exact (AttributeReference.not_tagMeetsAttribute tags meets).elim

/-- No tag stands in front of a placeholder when none has a data filter. -/
theorem filter_of_compile_apart :
    '{' ∉ "#a @[b].On(c|d @e)".toList ∧
      ∀ part text head body behind,
        Receives "#a @[b].On(c|d @e)".toList part .attribute .bracketed text →
          AttributeReference.ComesTo .bracketed text head
              (filtersOpening ++ (body ++ ')' :: behind)) →
            ')' ∉ body → ¬ AttributeReference.TagMeetsAttribute body := by
  have compiled : compile "#a @[b].On(c|d @e)".toList = .ok
      { filter := some "{tag0} {attr1}".toList
        order := none
        groupings := []
        tagReferences := [{ space := none, name := ['a'], searchDepth := 1,
                            strictSearchDepth := true, includeOwner := false }]
        attributeReferences :=
          [{ space := none, name := ['e'], mustExist := false, tagFilters := none },
            { space := none, name := ['b'], mustExist := false,
              tagFilters := some [
                { space := none, name := ['c'], searchDepth := 0, strictSearchDepth := true,
                  includeOwner := true },
                { space := none, name := ['d'], searchDepth := 0, strictSearchDepth := true,
                  includeOwner := true }] }] } := by
    decide +kernel
  exact ⟨by decide, (filter_of_compile compiled (by decide)).2.2.mp (by decide)⟩

/-- The plain attribute in the tag filters becomes a placeholder directly behind the tag, which is
read as the data filter of the tag. -/
theorem filter_of_attribute_behind_tag :
    '{' ∉ "@[a].On(t@b)".toList ∧
      ∃ descriptor, compile "@[a].On(t@b)".toList = .ok descriptor ∧
        ∃ reference ∈ descriptor.attributeReferences, ∃ tag ∈ reference.tagFilters.getD [],
          tag.filter = some (.ofAttribute 0) := by
  let tag : TagReference :=
    { space := none, name := ['t'], searchDepth := 0, strictSearchDepth := true,
      includeOwner := true, filter := some (.ofAttribute 0) }
  let reference : AttributeReference :=
    { space := none, name := ['a'], mustExist := false, tagFilters := some [tag] }
  have compiled : compile "@[a].On(t@b)".toList = .ok
      { filter := some "{attr1}".toList
        order := none
        groupings := []
        tagReferences := []
        attributeReferences :=
          [{ space := none, name := ['b'], mustExist := false, tagFilters := none },
            reference] } := by
    decide +kernel
  exact ⟨by decide, _, compiled, reference, by decide, tag, by decide, rfl⟩

end Descriptor

end NoteQuery
