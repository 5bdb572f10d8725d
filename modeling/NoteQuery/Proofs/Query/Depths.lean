import NoteQuery.Proofs.Query.DataFilters

/-! # Depths of tags

A tag searches no deeper than there are hash signs in the query (`Descriptor.searchDepth_le`): they
are spelled out in front of it, and compiling only takes them away.
-/

namespace NoteQuery

namespace Text

/-- Each of some joined texts is a stretch of what they are joined to. -/
theorem infix_intercalate_of_mem {separator text : Text} {texts : List Text}
    (member : text ∈ texts) : text <:+: separator.intercalate texts := by
  induction texts with
  | nil => cases member
  | cons first rest ih =>
      cases rest with
      | nil =>
          rw [List.mem_singleton.mp member, List.intercalate_singleton]
      | cons second rest =>
          rw [List.intercalate_cons_cons, List.append_assoc]
          rcases List.mem_cons.mp member with rfl | later
          · exact (List.prefix_append _ _).isInfix
          · exact ((ih later).trans (List.suffix_append _ _).isInfix).trans
              (List.suffix_append _ _).isInfix

/-- The fragments between separators are stretches of the text. -/
theorem infix_of_mem_splitOn {separator : Char} {text fragment : Text}
    (member : fragment ∈ text.splitOn separator) : fragment <:+: text := by
  have inside : fragment <:+: [separator].intercalate (text.splitOn separator) :=
    infix_intercalate_of_mem member
  rwa [List.intercalate_splitOn] at inside

end Text

namespace TagModifiers

/-- The depth of modifiers is at most the number of hashes among their marks. -/
theorem Marks.searchDepth_le {marks : Text} {modifiers : TagModifiers}
    (spelled : Marks marks modifiers) : modifiers.searchDepth ≤ marks.count '#' := by
  cases spelled with
  | tilde => exact Nat.zero_le _
  | hashes early more relaxed late =>
      rw [List.count_append, List.count_append, List.count_replicate_self]
      exact (Nat.le_add_right _ _).trans (Nat.le_add_left _ _)

end TagModifiers

/-- Writing placeholders in the place of references adds none of the other characters. -/
theorem Piece.count_numbered_le {Record : Type} {c : Char} (outer : Placeholder.isInner c = false)
    (other : c ≠ '{') (kind : Placeholder) (next : Nat) (pieces : List (Piece Record)) :
    (numbered kind next pieces).count c ≤ (sources pieces).count c := by
  induction pieces generalizing next with
  | nil => exact Nat.le_refl _
  | cons piece pieces ih =>
      cases piece with
      | plain d =>
          rw [numbered, sources_cons_plain, List.count_cons, List.count_cons]
          exact Nat.add_le_add_right (ih next) _
      | reference spelling record =>
          have absent : (kind.numbered next).count c = 0 :=
            List.count_eq_zero_of_not_mem (Placeholder.not_mem_numbered outer other)
          rw [numbered, sources_cons_reference, List.count_append, List.count_append, absent]
          have later := ih (next + 1)
          omega

namespace TagReference

variable {spelling : Spelling} {text behind : Text} {tag : TagReference}

/-- The depth of a tag is at most the number of hashes in the text it is read from. -/
theorem searchDepth_le_of_read? (read : read? spelling text = some (tag, behind)) :
    tag.searchDepth ≤ text.count '#' := by
  obtain ⟨marks, rfl, marked, _⟩ := spelled_of_read? read
  rw [List.count_append]
  exact marked.searchDepth_le.trans (Nat.le_add_right _ _)

/-- A pass records no tag that is deeper than its text has hashes. -/
theorem searchDepth_le_of_mem_records
    (member : tag ∈ Piece.records (scan spelling text).pieces) :
    tag.searchDepth ≤ text.count '#' := by
  obtain ⟨bare, behind, ⟨place, reaches, _, read⟩, same⟩ := mem_records_scan_iff.mp member
  have depth : tag.searchDepth = bare.searchDepth := by
    rcases same with ⟨_, rfl⟩ | ⟨_, _, _, _, rfl⟩ <;> rfl
  rw [depth]
  exact (searchDepth_le_of_read? read).trans (reaches.suffix.sublist.count_le '#')

end TagReference

namespace Phase

variable {Record : Type} {phase : Phase Record} {spelling : Spelling} {clause text : Text}
  {next : Nat} {c : Char}

/-- A pass adds no character but those of placeholders. -/
theorem count_numbered_scan_le (outer : Placeholder.isInner c = false) (other : c ≠ '{')
    (unfailed : (phase.scan spelling clause).failure = none) :
    (Piece.numbered phase.kind next (phase.scan spelling clause).pieces).count c ≤
      clause.count c := by
  have fewer := Piece.count_numbered_le outer other phase.kind next
    (phase.scan spelling clause).pieces
  rwa [phase.sources_scan spelling clause unfailed] at fewer

/-- What a pass receives holds no character more often than the clause, but those of
placeholders. -/
theorem Receives.count_le (received : phase.Receives clause next spelling text)
    (outer : Placeholder.isInner c = false) (other : c ≠ '{') : text.count c ≤ clause.count c := by
  cases received with
  | plain => exact Nat.le_refl _
  | bracketed unfailed => exact count_numbered_scan_le outer other unfailed

end Phase

namespace Descriptor

variable {query text : Text} {part : QueryPart} {kind : Placeholder} {spelling : Spelling}

/-- The texts that passes receive hold none but the hash signs of the query. -/
theorem Receives.count_le (received : Receives query part kind spelling text) :
    text.count '#' ≤ query.count '#' := by
  have of_clause {clause : Text} (member : clause ∈ (Outline.ofQuery query).clauses) :
      clause.count '#' ≤ query.count '#' := by
    have fewer := (Outline.infix_of_mem_clauses member).sublist.count_le '#'
    simpa [List.count_cons, List.count_append] using fewer
  cases kind
  · obtain ⟨clause, next, member, received⟩ := received.exists_clause_of_tag
    exact (received.count_le rfl (by decide)).trans (of_clause member)
  · obtain ⟨clause, tags, attributes, member, completes, received⟩ :=
      received.exists_clause_of_attribute
    calc text.count '#'
      _ ≤ (TagReference.phase.rewritten clause tags).count '#' :=
        received.count_le rfl (by decide)
      _ ≤ (TagReference.phase.halfway clause tags).count '#' :=
        Phase.count_numbered_scan_le rfl (by decide) completes.2
      _ ≤ clause.count '#' := Phase.count_numbered_scan_le rfl (by decide) completes.1
      _ ≤ query.count '#' := of_clause member
  · cases received

end Descriptor

namespace AttributeReference

variable {spelling : Spelling} {text body : Text}

/-- The fragments of tag filters hold none but the hash signs of these. -/
theorem FiltersReceive.count_le (received : FiltersReceive body spelling text) :
    text.count '#' ≤ body.count '#' := by
  obtain ⟨fragment, inside, next, received⟩ := received.exists_fragment
  have owner :
      (ownerFragment (Text.trim fragment)).count '#' = (Text.trim fragment).count '#' := by
    unfold ownerFragment
    split
    · rfl
    · exact List.count_cons_of_ne (by decide)
  calc text.count '#'
    _ ≤ (ownerFragment (Text.trim fragment)).count '#' := received.count_le rfl (by decide)
    _ = (Text.trim fragment).count '#' := owner
    _ ≤ fragment.count '#' := (Text.trim_infix fragment).sublist.count_le '#'
    _ ≤ body.count '#' := (Text.infix_of_mem_splitOn inside).sublist.count_le '#'

/-- The tag filters of an attribute are not deeper than the text of its pass has hashes. -/
theorem searchDepth_le_of_mem_tagFilters {reference : AttributeReference}
    {filters : List TagReference} {tag : TagReference}
    (recorded : reference ∈ Piece.records (scan spelling text).pieces)
    (listed : filters ∈ reference.tagFilters) (member : tag ∈ filters) :
    tag.searchDepth ≤ text.count '#' := by
  obtain ⟨head, _, comes, ⟨_, rfl⟩ | ⟨body, behind, _, rfl, _, readFilters, rfl⟩⟩ :=
    mem_records_scan_iff.mp recorded
  · cases listed
  · cases listed
    obtain ⟨_, fragment, received, found⟩ := (mem_readTagFilters_iff readFilters).mp member
    exact (TagReference.searchDepth_le_of_mem_records found).trans
      (received.count_le.trans (comes.stretch.sublist.count_le '#'))

end AttributeReference

/-- A tag of a compiled query, also in the tag filters of an attribute, searches no deeper than
there are hash signs in the query. -/
theorem Descriptor.searchDepth_le {query : Text} {descriptor : Descriptor} {tag : TagReference}
    (compiled : compile query = .ok descriptor)
    (recorded : tag ∈ descriptor.tagReferences ∨ ∃ reference ∈ descriptor.attributeReferences,
      ∃ filters ∈ reference.tagFilters, tag ∈ filters) :
    tag.searchDepth ≤ query.count '#' := by
  rcases recorded with recorded | ⟨reference, recorded, filters, listed, member⟩
  · obtain ⟨_, _, _, received, found⟩ := (mem_tagReferences_iff compiled).mp recorded
    exact (TagReference.searchDepth_le_of_mem_records found).trans received.count_le
  · obtain ⟨_, _, _, received, found⟩ := (mem_attributeReferences_iff compiled).mp recorded
    exact (AttributeReference.searchDepth_le_of_mem_tagFilters found listed member).trans
      received.count_le

end NoteQuery
