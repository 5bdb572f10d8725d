import NoteQuery.Proofs.Reference.WrittenAttribute

/-! # Records that can be written

Not every record is one of a text. Modifiers without hash signs are a tilde, so they are strict and
include the owner, and the words of a name are not empty and consist of word characters and blanks.
Records without data filters that meet these conditions are read back from what is written, and no
others are: `TagReference.extract_written_tag_iff` for tags, and
`AttributeReference.extract_written_attribute_iff` for attributes, whose tag filters include the
owner besides.
-/

namespace NoteQuery

/-- Modifiers that do not search at all are strict and include the owner. -/
def TagModifiers.Spellable (modifiers : TagModifiers) : Prop :=
  modifiers.searchDepth = 0 →
    modifiers.strictSearchDepth = true ∧ modifiers.includeOwner = true

instance (modifiers : TagModifiers) : Decidable modifiers.Spellable :=
  inferInstanceAs (Decidable (_ → _))

theorem TagModifiers.exists_marks_iff {modifiers : TagModifiers} :
    (∃ marks, Marks marks modifiers) ↔ modifiers.Spellable := by
  constructor
  · rintro ⟨marks, marked⟩ unmarked
    cases marked with
    | tilde => exact ⟨rfl, rfl⟩
    | hashes => cases unmarked
  · intro spellable
    obtain ⟨depth, strict, owner⟩ := modifiers
    cases depth with
    | zero =>
        obtain ⟨rfl, rfl⟩ := spellable rfl
        exact ⟨['~'], .tilde⟩
    | succ more =>
        have marked := Marks.hashes false more (!strict) owner
        rw [Bool.not_not, Bool.false_or] at marked
        exact ⟨_, marked⟩

/-- In brackets every name can be spelled that can be spelled at all. -/
theorem QualifiedName.Fits.bracketed {spelling : Spelling} {name : QualifiedName}
    (fits : name.Fits spelling) : name.Fits .bracketed := by
  cases spelling with
  | plain => exact fits.of_admits fun c _ word => isWordOrBlank_of_isWord word
  | bracketed => exact fits

namespace TagReference

variable {spelling : Spelling} {text : Text} {tag : TagReference}

/-- The modifiers and the name of a tag can be spelled. -/
structure Writable (tag : TagReference) : Prop where
  spellable : tag.toTagModifiers.Spellable
  named : tag.toQualifiedName.Fits .bracketed

instance (tag : TagReference) : Decidable tag.Writable :=
  decidable_of_iff (tag.toTagModifiers.Spellable ∧ tag.toQualifiedName.Fits .bracketed)
    ⟨fun both => ⟨both.1, both.2⟩, fun writable => ⟨writable.spellable, writable.named⟩⟩

theorem Recorded.writable (recorded : tag.Recorded spelling text) : tag.Writable :=
  ⟨TagModifiers.exists_marks_iff.mp recorded.marked, recorded.named.bracketed⟩

/-- A tag that can be written is like one that was read, when it has no data filter. -/
theorem Writable.recorded (writable : tag.Writable) (unfiltered : tag.filter = none) :
    tag.Recorded .bracketed [] := by
  refine ⟨TagModifiers.exists_marks_iff.mpr writable.spellable, writable.named, ?_⟩
  intro filter filtered
  rw [unfiltered] at filtered
  cases filtered

/-- **A tag without a data filter is read back** from what is written, and replaced by one
placeholder, exactly when its modifiers and its name can be spelled. -/
theorem extract_written_tag_iff (unfiltered : tag.filter = none) (known : List TagReference) :
    extract tag.written known =
        ⟨.ok (Placeholder.tag.numbered known.length), known ++ [tag]⟩ ↔ tag.Writable := by
  constructor
  · intro extracted
    rw [← extractor_phase] at extracted
    obtain ⟨_, _, _, recorded⟩ :=
      Phase.exists_receives_of_extractor extracted (List.mem_singleton_self tag)
    exact (recorded_of_mem_records recorded).writable
  · intro writable
    have recorded := writable.recorded unfiltered
    exact (extract_written_iff recorded known).mpr
      (readable_of_filter_eq_none recorded unfiltered)

/-- A tag whose name holds a no-break space is written in brackets and read back behind another
one. -/
theorem extract_written_tag_spaced :
    let tag : TagReference :=
      { space := some "S".toList, name := "a\u00a0b".toList, searchDepth := 2,
        strictSearchDepth := false, includeOwner := true }
    tag.filter = none ∧ tag.written = "##?~[S.a\u00a0b]".toList ∧
      extract tag.written [tag] = ⟨.ok (Placeholder.tag.numbered 1), [tag, tag]⟩ := by
  intro tag
  have unfiltered : tag.filter = none := rfl
  have writable : tag.Writable := by decide
  exact ⟨unfiltered, by decide, (extract_written_tag_iff unfiltered [tag]).mpr writable⟩

end TagReference

namespace AttributeReference

variable {reference : AttributeReference}

/-- The name of an attribute and its tag filters can be spelled, and these include the owner. -/
structure Writable (reference : AttributeReference) : Prop where
  named : reference.toQualifiedName.Fits .bracketed
  listed : ∀ filters ∈ reference.tagFilters, ∀ tag ∈ filters,
    tag.Writable ∧ tag.includeOwner = true

instance (reference : AttributeReference) : Decidable reference.Writable :=
  decidable_of_iff (reference.toQualifiedName.Fits .bracketed ∧
      ∀ filters ∈ reference.tagFilters, ∀ tag ∈ filters, tag.Writable ∧ tag.includeOwner = true)
    ⟨fun both => ⟨both.1, both.2⟩, fun writable => ⟨writable.named, writable.listed⟩⟩

/-- An attribute that can be written is like one that was read, when its tag filters have no data
filters. -/
theorem Writable.recorded (writable : reference.Writable)
    (unfiltered : ∀ filters ∈ reference.tagFilters, ∀ tag ∈ filters, tag.filter = none) :
    reference.Recorded := by
  refine ⟨⟨.bracketed, writable.named⟩, ?_⟩
  intro filters some_filters tag member
  obtain ⟨spelled, _⟩ := writable.listed filters some_filters tag member
  have recorded := spelled.recorded (unfiltered filters some_filters tag member)
  exact ⟨.bracketed, [], recorded, List.not_mem_nil, List.not_mem_nil, fun _ => .nil⟩

/-- It is readable, since its tag filters are. -/
theorem Writable.readable (writable : reference.Writable)
    (unfiltered : ∀ filters ∈ reference.tagFilters, ∀ tag ∈ filters, tag.filter = none) :
    reference.Readable := by
  intro filters some_filters tag member
  obtain ⟨spelled, included⟩ := writable.listed filters some_filters tag member
  have bare := unfiltered filters some_filters tag member
  exact ⟨included, TagReference.readable_of_filter_eq_none (spelled.recorded bare) bare⟩

/-- A readable attribute that was read can be written. -/
theorem Recorded.writable (recorded : reference.Recorded) (readable : reference.Readable) :
    reference.Writable := by
  obtain ⟨_, fits⟩ := recorded.named
  refine ⟨fits.bracketed, ?_⟩
  intro filters some_filters tag member
  obtain ⟨_, _, known, _⟩ := recorded.listed filters some_filters tag member
  exact ⟨known.writable, (readable filters some_filters tag member).1⟩

/-- **An attribute without data filters is read back** from what is written, with its tag filters in
their order, and replaced by one placeholder, exactly when it can be spelled and all its tag filters
include the owner. -/
theorem extract_written_attribute_iff
    (unfiltered : ∀ filters ∈ reference.tagFilters, ∀ tag ∈ filters, tag.filter = none)
    (known : List AttributeReference) :
    extract reference.written known =
        ⟨.ok (Placeholder.attribute.numbered known.length), known ++ [reference]⟩ ↔
      reference.Writable := by
  constructor
  · intro extracted
    -- That a pass has read the record says nothing of the owner: this follows from the round trip.
    have both := extracted
    rw [← extractor_phase] at both
    obtain ⟨_, _, received, member⟩ :=
      Phase.exists_receives_of_extractor both (List.mem_singleton_self reference)
    have recorded := recorded_of_receives received member
    exact recorded.writable ((extract_written_iff recorded known).mp extracted)
  · intro writable
    exact (extract_written_iff (writable.recorded unfiltered) known).mpr
      (writable.readable unfiltered)

/-- An attribute in brackets with both suffixes is read back with its two tag filters. -/
theorem extract_written_attribute_listed :
    let reference : AttributeReference :=
      { space := none, name := "My Price".toList, mustExist := true,
        tagFilters := some [
          { space := none, name := "Shop".toList, searchDepth := 0, strictSearchDepth := true,
            includeOwner := true },
          { space := some "S".toList, name := "a b".toList, searchDepth := 2,
            strictSearchDepth := false, includeOwner := true }] }
    (∀ filters ∈ reference.tagFilters, ∀ tag ∈ filters, tag.filter = none) ∧
      reference.written = "@[My Price].Exists().On(~Shop|##?~[S.a b])".toList ∧
      extract reference.written [reference] =
        ⟨.ok (Placeholder.attribute.numbered 1), [reference, reference]⟩ := by
  intro reference
  have unfiltered : ∀ filters ∈ reference.tagFilters, ∀ tag ∈ filters, tag.filter = none := by
    decide
  have writable : reference.Writable := by decide
  exact ⟨unfiltered, by decide,
    (extract_written_attribute_iff unfiltered [reference]).mpr writable⟩

end AttributeReference

end NoteQuery
