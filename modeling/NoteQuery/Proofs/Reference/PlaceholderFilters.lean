import NoteQuery.Proofs.Placeholder.Only
import NoteQuery.Proofs.Reference.DataFilter
import NoteQuery.Proofs.Reference.Reached
import NoteQuery.Proofs.Reference.SkippedTags

/-! # Placeholders that are read as data filters

In a text whose braces are those of placeholders, a data filter opens exactly at the placeholder of
an attribute (`DataFilter.opens_of_only`): the placeholder of a tag is known to be none. So a pass
for tags reads such a placeholder as a data filter when it stands directly behind a tag
(`TagReference.mem_records_of_only_iff`).
-/

namespace NoteQuery

open Delimiters (braces)

namespace DataFilter

/-- What is read when the placeholder of an attribute is taken for a data filter. -/
def ofAttribute (number : Nat) : DataFilter where
  pattern := Placeholder.attribute.word ++ Text.ofNat number
  expressions := []

variable {text : Text}

theorem ofBody_attribute (number : Nat) :
    ofBody (Placeholder.attribute.word ++ Text.ofNat number) = ofAttribute number := by
  have undotted : '.' ∉ Placeholder.attribute.word ++ Text.ofNat number := by
    intro member
    rcases List.mem_append.mp member with inside | digit
    · exact absurd inside (by decide)
    · cases Placeholder.isDigit_of_mem_ofNat digit
  have unblank : ∀ c ∈ Placeholder.attribute.word ++ Text.ofNat number, isBlank c = false := by
    intro c member
    by_contra blank
    have outer := Placeholder.isInner_of_isBlank (Bool.not_eq_false _ ▸ blank)
    have inner : c ∈ (Placeholder.attribute.numbered number).tail :=
      List.mem_append_left _ member
    exact Placeholder.not_mem_tail_of_isInner outer inner
  have trimmed : Text.trim (Placeholder.attribute.word ++ Text.ofNat number) =
      Placeholder.attribute.word ++ Text.ofNat number :=
    Text.trim_eq_self_iff.mpr ⟨fun c first => unblank c (List.mem_of_mem_head? first),
      fun c last => unblank c (List.mem_of_mem_getLast? last)⟩
  have written := Piece.numbered_map_plain_append .expression 0
    (Placeholder.attribute.word ++ Text.ofNat number) ([] : List (Piece Text))
  rw [ofBody, pieces_of_not_mem undotted]
  rw [List.append_nil, Piece.numbered, List.append_nil] at written
  rw [written, trimmed, ofAttribute, Piece.records, List.filterMap_map]
  simp [Function.comp_def, Piece.record?]

/-- A data filter opens exactly at the placeholder of an attribute. -/
theorem opens_of_only (only : OnlyPlaceholders [.tag, .attribute] text) :
    opens text = Placeholder.attribute.startsText text := by
  cases text with
  | nil => rfl
  | cons c rest =>
      rw [opens, Placeholder.startsText_eq, Placeholder.startsText_eq]
      by_cases brace : c = '{'
      · subst brace
        obtain ⟨kind, member, number, more, same⟩ := only rest (List.suffix_refl _)
        rw [← same]
        rcases List.mem_pair.mp member with rfl | rfl
        · rw [Placeholder.read?_numbered, Placeholder.read?_numbered_of_ne (by decide)]
          simp
        · rw [Placeholder.read?_numbered, Placeholder.read?_numbered_of_ne (by decide), same]
          simp
      · rw [Placeholder.read?_cons_of_ne brace, Placeholder.read?_cons_of_ne brace]
        simp [brace]

/-- The placeholder of an attribute is read up to its end. -/
theorem closed_of_only (only : OnlyPlaceholders [.tag, .attribute] text)
    (opened : opens text = true) :
    ∃ number behind, text = Placeholder.attribute.numbered number ++ behind ∧
      close? 0 text.tail = some (Placeholder.attribute.word ++ Text.ofNat number, behind) := by
  obtain ⟨rest, rfl⟩ := TagReference.eq_brace_cons_of_opens opened
  obtain ⟨kind, member, number, behind, same⟩ := only rest (List.suffix_refl _)
  rw [opens_of_only only, Placeholder.startsText_eq, ← same] at opened
  rcases List.mem_pair.mp member with rfl | rfl
  · rw [Placeholder.read?_numbered_of_ne (by decide)] at opened
    cases opened
  · refine ⟨number, behind, same.symm, ?_⟩
    rw [← same]
    exact close?_tail .attribute number behind

end DataFilter

namespace TagReference

variable {spelling : Spelling} {text behind : Text} {tag : TagReference}

/-- A tag that a pass comes to is read without a data filter. -/
theorem ComesTo.filter_eq_none (comes : ComesTo spelling text tag behind) : tag.filter = none := by
  obtain ⟨_, _, _, read⟩ := comes
  exact filter_of_read? read

/-- No tag has a data filter when none opens in the text. -/
theorem filter_of_unfiltered (unfiltered : Unfiltered text)
    (member : tag ∈ Piece.records (scan spelling text).pieces) : tag.filter = none := by
  obtain ⟨bare, behind, comes, ⟨_, rfl⟩ | ⟨_, _, opened, _⟩⟩ := mem_records_scan_iff.mp member
  · exact comes.filter_eq_none
  · rw [unfiltered behind comes.suffix] at opened
    cases opened

/-- The records of a pass are those of the tags that it comes to, with the placeholder of an
attribute directly behind a tag as its data filter. -/
theorem mem_records_of_only_iff (only : OnlyPlaceholders [.tag, .attribute] text) :
    tag ∈ Piece.records (scan spelling text).pieces ↔
      ∃ bare behind, ComesTo spelling text bare behind ∧
        (Placeholder.attribute.startsText behind = false ∧ tag = bare ∨
          ∃ number, Placeholder.attribute.numbered number <+: behind ∧
            tag = { bare with filter := some (.ofAttribute number) }) := by
  rw [mem_records_scan_iff]
  refine exists₂_congr fun bare behind => and_congr_right fun comes => ?_
  have ends := only.of_suffix comes.suffix
  refine or_congr (by rw [DataFilter.opens_of_only ends]) ?_
  constructor
  · rintro ⟨body, rest, opened, closed, rfl⟩
    obtain ⟨number, more, whole, closed'⟩ := DataFilter.closed_of_only ends opened
    rw [closed'] at closed
    cases closed
    exact ⟨number, ⟨_, whole.symm⟩, by rw [DataFilter.ofBody_attribute]⟩
  · rintro ⟨number, ⟨more, rfl⟩, rfl⟩
    have opened : DataFilter.opens (Placeholder.attribute.numbered number ++ more) = true := by
      rw [DataFilter.opens_of_only ends, Placeholder.startsText_eq, Placeholder.read?_numbered]
      rfl
    refine ⟨_, _, opened, DataFilter.close?_tail .attribute number _, ?_⟩
    rw [DataFilter.ofBody_attribute]

end TagReference

namespace AttributeReference

variable {kinds : List Placeholder} {spelling : Spelling} {body text : Text}
  {filters : List TagReference} {tag : TagReference}

/-- The braces of tag filters that a pass comes to are those of placeholders when all braces of the
text are. -/
theorem ComesTo.only_body {head : AttributeHead} {behind : Text}
    (comes : ComesTo spelling text head (AttributeHead.filtersOpening ++ (body ++ ')' :: behind)))
    (only : OnlyPlaceholders kinds text) : OnlyPlaceholders kinds body := by
  have inside := (only.of_suffix comes.suffix).of_suffix (List.suffix_append _ _)
  refine inside.of_append fun c first => ?_
  cases first
  rfl

/-- In some tag filters a tag stands directly in front of the placeholder of an attribute. -/
def TagMeetsAttribute (body : Text) : Prop :=
  ∃ spelling fragment tag behind, FiltersReceive body spelling fragment ∧
    TagReference.ComesTo spelling fragment tag behind ∧
    Placeholder.attribute.startsText behind = true

/-- The passes over tag filters receive texts whose braces are those of placeholders, when the
braces of the tag filters are. -/
theorem FiltersReceive.only (received : FiltersReceive body spelling text)
    (only : OnlyPlaceholders kinds body) (tags : .tag ∈ kinds) : OnlyPlaceholders kinds text := by
  obtain ⟨fragment, inside, next, received⟩ := received.exists_fragment
  have trimmed : OnlyPlaceholders kinds (Text.trim fragment) :=
    (only.of_mem_splitOn rfl inside).trim
  have start : OnlyPlaceholders kinds (ownerFragment (Text.trim fragment)) := by
    unfold ownerFragment
    split
    · exact trimmed
    · exact trimmed.cons (by decide)
  exact received.only start tags

/-- Tag filters have data filters only where a tag stands in front of the placeholder of an
attribute. -/
theorem filter_of_mem_readTagFilters (only : OnlyPlaceholders [.tag, .attribute] body)
    (read : readTagFilters body = .ok filters) (member : tag ∈ filters) :
    tag.filter = none ∨
      TagMeetsAttribute body ∧ ∃ number, tag.filter = some (.ofAttribute number) := by
  obtain ⟨spelling, text, received, member⟩ := (mem_readTagFilters_iff read).mp member
  have inside := received.only only List.mem_cons_self
  obtain ⟨bare, behind, comes, ⟨_, rfl⟩ | ⟨number, start, rfl⟩⟩ :=
    (TagReference.mem_records_of_only_iff inside).mp member
  · exact .inl comes.filter_eq_none
  · refine .inr ⟨⟨spelling, text, bare, behind, received, comes, ?_⟩, number, rfl⟩
    rw [Placeholder.startsText_eq, Placeholder.numbered_prefix_iff.mp start]
    rfl

/-- A tag in front of the placeholder of an attribute has a data filter. -/
theorem exists_filter_of_tagMeetsAttribute (only : OnlyPlaceholders [.tag, .attribute] body)
    (read : readTagFilters body = .ok filters) (meets : TagMeetsAttribute body) :
    ∃ tag ∈ filters, tag.filter ≠ none := by
  obtain ⟨spelling, text, bare, behind, received, comes, starts⟩ := meets
  have inside := received.only only List.mem_cons_self
  have ends := inside.of_suffix comes.suffix
  rw [← DataFilter.opens_of_only ends] at starts
  obtain ⟨number, more, rfl, _⟩ := DataFilter.closed_of_only ends starts
  refine ⟨{ bare with filter := some (.ofAttribute number) },
    (mem_readTagFilters_iff read).mpr ⟨spelling, text, received, ?_⟩, Option.some_ne_none _⟩
  exact (TagReference.mem_records_of_only_iff inside).mpr
    ⟨bare, _, comes, .inr ⟨number, List.prefix_append _ _, rfl⟩⟩

/-- Where all braces are those of the placeholders of tags, no tag stands in front of one of an
attribute. -/
theorem not_tagMeetsAttribute (only : OnlyPlaceholders [.tag] body) : ¬ TagMeetsAttribute body := by
  rintro ⟨spelling, text, tag, behind, received, comes, starts⟩
  have ends := (received.only only List.mem_cons_self).of_suffix comes.suffix
  rw [Placeholder.startsText_eq] at starts
  obtain ⟨numeral, read⟩ := Option.isSome_iff_exists.mp starts
  obtain ⟨⟨rest, rfl⟩, _⟩ := Placeholder.read?_eq_some_iff.mp read
  obtain ⟨kind, member, number, more, same⟩ := ends _ (List.suffix_refl _)
  cases List.mem_singleton.mp member
  rw [← same, Placeholder.read?_numbered_of_ne (by decide)] at read
  cases read

end AttributeReference

end NoteQuery
