import NoteQuery.Proofs.Reference.TagCut

/-! # Tag filters that include the owner

A fragment of tag filters gets one tilde in front, and its tags are found wherever they stand in it.
So a tag at the start of a fragment includes the owner, and one behind the start may lack the tilde
(`AttributeReference.ListsOwnerless`). All tag filters that an extraction reads include the owner
exactly when it comes to no such fragment (`AttributeReference.includeOwner_of_extract`).
-/

namespace NoteQuery

open AttributeHead (filtersOpening)

/-- A written text starts with the character that was read first or with a placeholder. -/
theorem Piece.head?_numbered {Record : Type} (kind : Placeholder) (next : Nat) {c : Char}
    {rest : Text} {pieces : List (Piece Record)} (whole : Piece.sources pieces = c :: rest) :
    (Piece.numbered kind next pieces).head? = some c ∨
      (Piece.numbered kind next pieces).head? = some '{' := by
  cases pieces with
  | nil => cases whole
  | cons piece pieces =>
      cases piece with
      | plain d =>
          rw [sources_cons_plain, List.cons.injEq] at whole
          left
          rw [whole.1]
          rfl
      | reference spelled record =>
          right
          rfl

namespace TagReference

variable {spelling : Spelling} {clause spelled : Text} {tag : TagReference}
  {front back : List (Piece TagReference)}

/-- The marks that a tag reference is spelled with. -/
def marksOf (spelled : Text) : Text :=
  spelled.takeWhile TagModifiers.isModifier

theorem marksOf_append {marks : Text} {modifiers : TagModifiers} {name : QualifiedName}
    (marked : TagModifiers.Marks marks modifiers) (fits : name.Fits spelling) (rest : Text) :
    marksOf (marks ++ (name.spelled spelling ++ rest)) = marks := by
  have stops := fits.head_not_modifier rest
  obtain ⟨c, tail, start, _⟩ := fits.spelled_eq_cons
  rw [start] at stops ⊢
  rw [marksOf, List.takeWhile_append_of_pos fun d member => marked.isModifier member,
    List.cons_append, List.takeWhile_cons_of_neg (by rw [stops c rfl]; decide), List.append_nil]

/-- **A tag that a pass replaces includes the owner** exactly when a tilde is among its marks. -/
theorem includeOwner_iff_of_scan (unfailed : (scan spelling clause).failure = none)
    (split : (scan spelling clause).pieces = front ++ .reference spelled tag :: back) :
    tag.includeOwner = true ↔ '~' ∈ marksOf spelled := by
  obtain ⟨marks, marked, fits, rfl | ⟨body, rfl, _⟩⟩ :=
    spelled_of_found (found_scan unfailed split)
  · have same := marksOf_append marked fits []
    rw [List.append_nil] at same
    rw [same, marked.includeOwner_iff]
  · rw [List.append_assoc, marksOf_append marked fits, marked.includeOwner_iff]

end TagReference

namespace AttributeReference

variable {spelling : Spelling} {clause text body : Text} {filters : List TagReference}
  {known : List AttributeReference} {next : Nat}

/-- Tag filters list a tag without its owner: a pass over a fragment finds a tag that is not at the
start of the fragment, and no tilde is among its marks. -/
def ListsOwnerless (body : Text) : Prop :=
  ∃ spelling text front spelled tag back, FiltersReceive body spelling text ∧
    (TagReference.scan spelling text).pieces = front ++ .reference spelled tag :: back ∧
      front ≠ [] ∧ '~' ∉ TagReference.marksOf spelled

/-- A pass over a clause comes to tag filters with `body` between their parentheses. -/
def ComesToFilters (clause : Text) (next : Nat) (body : Text) : Prop :=
  ∃ spelling text head behind, phase.Receives clause next spelling text ∧
    ComesTo spelling text head (filtersOpening ++ (body ++ ')' :: behind)) ∧ ')' ∉ body

theorem head?_ownerFragment (fragment : Text) : (ownerFragment fragment).head? = some '~' := by
  unfold ownerFragment
  split
  · assumption
  · rfl

/-- What the passes over tag filters receive starts with the tilde or with a placeholder in its
place. -/
theorem FiltersReceive.head?_eq (received : FiltersReceive body spelling text) :
    text.head? = some '~' ∨ text.head? = some '{' := by
  obtain ⟨fragment, _, next, received⟩ := received.exists_fragment
  have start := head?_ownerFragment (Text.trim fragment)
  cases received with
  | plain => exact .inl start
  | bracketed unfailed =>
      obtain ⟨rest, same⟩ := List.head?_eq_some_iff.mp start
      rw [← TagReference.sources_scan unfailed] at same
      exact Piece.head?_numbered .tag next same

/-- A tag at the start of a fragment includes the owner. -/
theorem FiltersReceive.front_ne_nil {front back : List (Piece TagReference)} {spelled : Text}
    {tag : TagReference} (received : FiltersReceive body spelling text)
    (unfailed : (TagReference.scan spelling text).failure = none)
    (split : (TagReference.scan spelling text).pieces = front ++ .reference spelled tag :: back)
    (ownerless : '~' ∉ TagReference.marksOf spelled) : front ≠ [] := by
  rintro rfl
  have whole := TagReference.sources_scan unfailed
  have member : spelled ∈ Piece.spellings (TagReference.scan spelling text).pieces := by
    rw [split]
    exact List.mem_cons_self
  obtain ⟨c, rest, rfl, mark⟩ := TagReference.marked_of_scan member
  rw [split, List.nil_append, Piece.sources_cons_reference, List.cons_append] at whole
  have start := received.head?_eq
  rw [← whole, List.head?_cons, Option.some.injEq, Option.some.injEq] at start
  rcases start with rfl | rfl
  · exact ownerless List.mem_cons_self
  · cases mark

/-- **Tag filters that were read include the owner** exactly when they list no tag without it. -/
theorem includeOwner_of_readTagFilters (read : readTagFilters body = .ok filters) :
    (∀ tag ∈ filters, tag.includeOwner = true) ↔ ¬ ListsOwnerless body := by
  have unfailed := exists_readTagFilters_iff.mp ⟨filters, read⟩
  constructor
  · rintro included ⟨spelling, text, front, spelled, tag, back, received, split, _, ownerless⟩
    have listed : tag ∈ filters := (mem_readTagFilters_iff read).mpr
      ⟨spelling, text, received, Piece.mem_records_iff.mpr ⟨front, spelled, back, split⟩⟩
    apply ownerless
    exact (TagReference.includeOwner_iff_of_scan (unfailed _ _ received) split).mp
      (included tag listed)
  · intro settled tag listed
    -- The tag comes from a pass over a fragment; at its start it would have the tilde.
    obtain ⟨spelling, text, received, recorded⟩ := (mem_readTagFilters_iff read).mp listed
    obtain ⟨front, spelled, back, split⟩ := Piece.mem_records_iff.mp recorded
    rw [TagReference.includeOwner_iff_of_scan (unfailed _ _ received) split]
    by_contra ownerless
    have behind := received.front_ne_nil (unfailed _ _ received) split ownerless
    exact settled ⟨spelling, text, front, spelled, tag, back, received, split, behind, ownerless⟩

/-- The tag filters of what an extraction adds are those that its passes come to. -/
theorem mem_tagFilters_added_iff (completes : phase.Completes clause next) {tag : TagReference} :
    (∃ reference ∈ phase.added clause next, tag ∈ reference.tagFilters.getD []) ↔
      ∃ body filters, ComesToFilters clause next body ∧ readTagFilters body = .ok filters ∧
        tag ∈ filters := by
  constructor
  · rintro ⟨reference, member, listed⟩
    obtain ⟨spelling, text, received, recorded⟩ := (Phase.mem_added_iff completes).mp member
    obtain ⟨head, body, behind, filters, comes, free, read, inside⟩ :=
      mem_tagFilters_scan_iff.mp ⟨reference, recorded, listed⟩
    exact ⟨body, filters, ⟨spelling, text, head, behind, received, comes, free⟩, read, inside⟩
  · rintro ⟨body, filters, ⟨spelling, text, head, behind, received, comes, free⟩, read, inside⟩
    obtain ⟨reference, recorded, listed⟩ :=
      mem_tagFilters_scan_iff.mpr ⟨head, body, behind, filters, comes, free, read, inside⟩
    exact ⟨reference, (Phase.mem_added_iff completes).mpr ⟨spelling, text, received, recorded⟩,
      listed⟩

/-- When an extraction reaches the end, all tag filters that its passes come to were read. -/
theorem ComesToFilters.exists_readTagFilters (comes : ComesToFilters clause next body)
    (completes : phase.Completes clause next) : ∃ filters, readTagFilters body = .ok filters := by
  obtain ⟨spelling, text, head, behind, received, comes, free⟩ := comes
  exact comes.exists_readTagFilters free (received.unfailed completes)

/-- **The tag filters of what an extraction adds include the owner** exactly when no tag filters
that its passes come to list a tag without its owner behind the start of a fragment. -/
theorem includeOwner_of_extract (extracted : (extract clause known).clause = .ok text) :
    ∃ added, extract clause known = ⟨.ok text, known ++ added⟩ ∧
      ((∀ reference ∈ added, ∀ tag ∈ reference.tagFilters.getD [], tag.includeOwner = true) ↔
        ∀ body, ComesToFilters clause known.length body → ¬ ListsOwnerless body) := by
  rw [← extractor_phase] at extracted ⊢
  obtain ⟨completes, rewritten, records⟩ := Phase.completes_of_extractor extracted
  refine ⟨phase.added clause known.length,
    Phase.extractor_eq_ok_iff.mpr ⟨completes, rewritten, rfl⟩, ?_⟩
  constructor
  · intro included body comes
    obtain ⟨filters, read⟩ := comes.exists_readTagFilters completes
    apply (includeOwner_of_readTagFilters read).mp
    intro tag inside
    obtain ⟨reference, member, listed⟩ :=
      (mem_tagFilters_added_iff completes).mpr ⟨body, filters, comes, read, inside⟩
    exact included reference member tag listed
  · intro settled reference member tag listed
    obtain ⟨body, filters, comes, read, inside⟩ :=
      (mem_tagFilters_added_iff completes).mp ⟨reference, member, listed⟩
    exact (includeOwner_of_readTagFilters read).mpr (settled body comes) tag inside

/-- A further tag in a fragment includes the owner when it has a tilde itself. -/
theorem includeOwner_of_extract_tildes :
    (extract "@[b c].On(#x ~#y|z)".toList []).clause = .ok "{attr0}".toList ∧
      ∀ body, ComesToFilters "@[b c].On(#x ~#y|z)".toList 0 body → ¬ ListsOwnerless body := by
  have extracted : (extract "@[b c].On(#x ~#y|z)".toList []).clause = .ok "{attr0}".toList := by
    decide +kernel
  obtain ⟨added, whole, included⟩ := includeOwner_of_extract extracted
  have records : added = (extract "@[b c].On(#x ~#y|z)".toList []).records := by
    rw [whole]
    rfl
  refine ⟨extracted, included.mp ?_⟩
  rw [records]
  decide +kernel

/-- The tilde in front of a fragment belongs to its first tag only. -/
theorem not_includeOwner_of_second_tag :
    (extract "@a.On(#x #y)".toList []).clause = .ok "{attr0}".toList ∧
      ∃ reference ∈ (extract "@a.On(#x #y)".toList []).records,
        ∃ tag ∈ reference.tagFilters.getD [], tag.name = ['y'] ∧ tag.includeOwner = false := by
  decide +kernel

end AttributeReference

end NoteQuery
