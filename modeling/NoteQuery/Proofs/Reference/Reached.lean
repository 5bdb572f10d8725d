import NoteQuery.Proofs.Query.Passes
import NoteQuery.Proofs.Reference.Braces

/-! # References that a pass comes to

What a pass does is determined by the references that it comes to and by what stands directly behind
them. A pass for tags fails exactly at a brace that is not closed
(`TagReference.failure_scan_eq_some_iff`), a pass for attributes at the parenthesis of tag filters
that is not closed, or because the tag filters in it cannot be read
(`AttributeReference.failure_scan_eq_some_iff`). These are read by passes over their fragments
(`AttributeReference.FiltersReceive`).
-/

namespace NoteQuery

open Delimiters (braces)

namespace TagReference

/-- A pass over a text comes to a tag reference that no attribute owns, and `behind` stands directly
behind its name. -/
def ComesTo (spelling : Spelling) (text : Text) (tag : TagReference) (behind : Text) : Prop :=
  ∃ place, Scan.Reaches (step spelling text (OwnedBody.ofClause text)) text place ∧
    OwnedBody.owning? (OwnedBody.ofClause text) place.length = none ∧
    read? spelling place = some (tag, behind)

variable {spelling : Spelling} {text behind : Text} {tag : TagReference}

/-- What stands behind a tag reference is the end of the text, with something in front of it. -/
theorem ComesTo.suffix (comes : ComesTo spelling text tag behind) : behind <:+ text := by
  obtain ⟨place, reaches, _, read⟩ := comes
  exact (read?_isRestOf read).1.trans reaches.suffix

theorem ne_nil_of_read? (read : read? spelling text = some (tag, behind)) : text ≠ [] := by
  obtain ⟨c, rest, rfl, _⟩ := eq_cons_of_read? read
  exact List.cons_ne_nil c rest

/-- The word of a placeholder and a numeral hold no brace. -/
theorem balanced_word_append {numeral : Text} (digits : ∀ c ∈ numeral, c.isDigit = true) :
    braces.Balanced (Placeholder.tag.word ++ numeral) := by
  have unbraced (c : Char) (brace : c = '{' ∨ c = '}') : c ∉ Placeholder.tag.word ++ numeral := by
    intro member
    rcases List.mem_append.mp member with word | digit
    · rcases brace with rfl | rfl <;> exact absurd word (by decide)
    · have decimal := digits c digit
      rcases brace with rfl | rfl <;> cases decimal
  exact Delimiters.balanced_of_not_mem (unbraced _ (.inl rfl)) (unbraced _ (.inr rfl))

/-- A data filter opens in front of a text that is matched. -/
theorem opens_of_matched {inside : Text} (matched : braces.Matched 0 inside) :
    DataFilter.opens ('{' :: inside) = true := by
  have unplaced : Placeholder.tag.read? ('{' :: inside) = none := by
    rw [Option.eq_none_iff_forall_ne_some]
    intro numeral read
    obtain ⟨⟨rest, same⟩, _, digits⟩ := Placeholder.read?_eq_some_iff.mp read
    obtain ⟨_, rfl⟩ := List.cons.inj same
    exact Delimiters.not_matched_closing_cons
      ((balanced_word_append digits).matched_append_iff.mp matched)
  rw [DataFilter.opens, Placeholder.startsText_eq, unplaced]
  rfl

/-- **A pass for tags fails** exactly when it comes to a tag with a brace behind it that is not
closed. -/
theorem failure_scan_eq_some_iff {error : QueryError} :
    (scan spelling text).failure = some error ↔
      ∃ tag inside, ComesTo spelling text tag ('{' :: inside) ∧ braces.Matched 0 inside ∧
        error = ⟨.dataFilter, tag.name, text.bytesBefore ('{' :: inside), .clause⟩ := by
  rw [scan, Scan.failure_eq_some_iff]
  constructor
  · rintro ⟨place, _, reaches, found⟩
    rw [found_step] at found
    split at found
    · cases found
    · rename_i tag behind read
      split at found
      · cases found
      · rename_i free
        split at found
        · rename_i opened
          split at found
          · rename_i unclosed
            cases found
            obtain ⟨inside, rfl⟩ := eq_brace_cons_of_opens opened
            exact ⟨tag, inside, ⟨place, reaches, free, read⟩,
              DataFilter.close?_eq_none_iff.mp unclosed, rfl⟩
          · cases found
        · cases found
  · rintro ⟨tag, inside, ⟨place, reaches, free, read⟩, matched, rfl⟩
    refine ⟨place, ne_nil_of_read? read, reaches, ?_⟩
    rw [found_step]
    simp only [read, free, opens_of_matched matched, ↓reduceIte, List.tail_cons,
      DataFilter.close?_eq_none_iff.mpr matched]

/-- A tag reference is read without a data filter. -/
theorem filter_of_read? (read : read? spelling text = some (tag, behind)) : tag.filter = none := by
  unfold read? at read
  split at read
  · cases read
  · split at read
    · cases read
    · cases read
      rfl

/-- The records of a pass for tags are those of the tags that it comes to, with the data filters
that open directly behind them. -/
theorem mem_records_scan_iff :
    tag ∈ Piece.records (scan spelling text).pieces ↔
      ∃ bare behind, ComesTo spelling text bare behind ∧
        (DataFilter.opens behind = false ∧ tag = bare ∨
          ∃ body rest, DataFilter.opens behind = true ∧
            DataFilter.close? 0 behind.tail = some (body, rest) ∧
            tag = { bare with filter := some (.ofBody body) }) := by
  rw [scan, Scan.mem_records_iff]
  constructor
  · rintro ⟨later, place, _, reaches, found⟩
    rw [found_step] at found
    split at found
    · cases found
    · rename_i bare behind read
      split at found
      · cases found
      · rename_i free
        refine ⟨bare, behind, ⟨place, reaches, free, read⟩, ?_⟩
        split at found
        · rename_i opened
          split at found
          · cases found
          · rename_i body rest closed
            cases found
            exact .inr ⟨body, _, opened, closed, rfl⟩
        · rename_i unopened
          cases found
          exact .inl ⟨Bool.not_eq_true _ ▸ unopened, rfl⟩
  · rintro ⟨bare, behind, ⟨place, reaches, free, read⟩, ⟨unopened, rfl⟩ |
      ⟨body, rest, opened, closed, rfl⟩⟩
    · refine ⟨behind, place, ne_nil_of_read? read, reaches, ?_⟩
      rw [found_step]
      simp only [read, free, unopened, Bool.false_eq_true, ↓reduceIte]
    · refine ⟨rest, place, ne_nil_of_read? read, reaches, ?_⟩
      rw [found_step]
      simp only [read, free, opened, closed, ↓reduceIte]

/-- An extraction of tags does not know the part of the query that it works on. -/
theorem part_of_extract {clause : Text} {known : List TagReference} {error : QueryError}
    (failed : (extract clause known).clause = .error error) : error.part = .clause := by
  rw [← extractor_phase] at failed
  obtain ⟨spelling, text, _, failed⟩ := Phase.exists_failure_of_extractor failed
  obtain ⟨_, _, _, _, rfl⟩ := failure_scan_eq_some_iff.mp failed
  rfl

end TagReference

namespace AttributeReference

open AttributeHead (filtersOpening)

/-- The fragments of a list of tag filters, each in the form in which its tags are extracted, as if
they were parts of a query. -/
def fragmentParts (body : Text) : List (QueryPart × Text) :=
  ((body.splitOn '|').map Text.trim).map fun fragment => (.clause, ownerFragment fragment)

/-- The texts that the passes over the fragments of a list of tag filters receive. -/
def FiltersReceive (body : Text) : Spelling → Text → Prop :=
  TagReference.phase.ReceivesFrom 0 (fragmentParts body) .clause

/-- Tag filters are extracted like the parts of a query. -/
theorem extractFragments_parts (fragments : List Text) (known : List TagReference) :
    extractFragments fragments known =
      (TagReference.phase.extractor.onParts
        (fragments.map fun fragment => (.clause, ownerFragment fragment)) known).map Prod.snd := by
  induction fragments generalizing known with
  | nil => rfl
  | cons fragment rest ih =>
      rw [extractFragments, List.map_cons, Extractor.onParts, Extractor.onClause,
        TagReference.extractor_phase]
      cases extracted : TagReference.extract (ownerFragment fragment) known with
      | mk outcome records =>
          cases outcome with
          | error error =>
              have failed : (TagReference.extract (ownerFragment fragment) known).clause =
                  .error error := by rw [extracted]
              have part := TagReference.part_of_extract failed
              obtain ⟨unclosed, name, position, _⟩ := error
              cases part
              rfl
          | ok text =>
              dsimp only
              rw [ih, TagReference.extractor_phase]
              generalize Extractor.onParts TagReference.extract _ records = outcome
              cases outcome <;> rfl

variable {body : Text} {spelling : Spelling} {text : Text} {filters : List TagReference}
  {tag : TagReference} {error : QueryError}

theorem readTagFilters_parts (body : Text) :
    readTagFilters body =
      (TagReference.phase.extractor.onParts (fragmentParts body) []).map Prod.snd :=
  extractFragments_parts _ []

/-- Tag filters that were read come from the parts that their fragments are. -/
theorem exists_onParts_of_readTagFilters (read : readTagFilters body = .ok filters) :
    ∃ rewritten, TagReference.phase.extractor.onParts (fragmentParts body) [] =
      .ok (rewritten, filters) := by
  rw [readTagFilters_parts] at read
  cases extracted : TagReference.phase.extractor.onParts (fragmentParts body) [] with
  | error error =>
      rw [extracted] at read
      cases read
  | ok result =>
      rw [extracted] at read
      cases read
      exact ⟨result.1, rfl⟩

theorem part_eq_clause {part : QueryPart}
    (received : TagReference.phase.ReceivesFrom 0 (fragmentParts body) part spelling text) :
    part = .clause := by
  obtain ⟨clause, _, member, _⟩ := received.exists_mem
  obtain ⟨fragment, _, same⟩ := List.mem_map.mp member
  cases same
  rfl

/-- The passes over tag filters receive what is left of a fragment between bars. -/
theorem FiltersReceive.exists_fragment (received : FiltersReceive body spelling text) :
    ∃ fragment ∈ body.splitOn '|', ∃ next,
      TagReference.phase.Receives (ownerFragment (Text.trim fragment)) next spelling text := by
  obtain ⟨clause, next, member, received⟩ := received.exists_mem
  obtain ⟨_, fragments, same⟩ := List.mem_map.mp member
  obtain ⟨fragment, inside, rfl⟩ := List.mem_map.mp fragments
  cases same
  exact ⟨fragment, inside, next, received⟩

/-- Tag filters cannot be read because a pass over one of their fragments fails. -/
theorem exists_failure_of_readTagFilters (failed : readTagFilters body = .error error) :
    ∃ spelling text, FiltersReceive body spelling text ∧
      (TagReference.scan spelling text).failure = some error := by
  rw [readTagFilters_parts] at failed
  cases extracted : TagReference.phase.extractor.onParts (fragmentParts body) [] with
  | ok result =>
      rw [extracted] at failed
      cases failed
  | error other =>
      rw [extracted] at failed
      cases failed
      obtain ⟨spelling, text, found, received, failed, same⟩ :=
        Phase.exists_failure_of_onParts extracted
      have part := part_eq_clause received
      rw [part] at received same
      refine ⟨spelling, text, received, ?_⟩
      obtain ⟨_, _, _, _, rfl⟩ := TagReference.failure_scan_eq_some_iff.mp failed
      rw [same]
      exact failed

/-- **Tag filters can be read** exactly when no pass over their fragments fails. -/
theorem exists_readTagFilters_iff :
    (∃ filters, readTagFilters body = .ok filters) ↔
      ∀ spelling text, FiltersReceive body spelling text →
        (TagReference.scan spelling text).failure = none := by
  constructor
  · rintro ⟨filters, read⟩ spelling text received
    obtain ⟨rewritten, ok⟩ := exists_onParts_of_readTagFilters read
    exact received.unfailed ok rfl
  · intro unfailed
    cases read : readTagFilters body with
    | ok filters => exact ⟨filters, rfl⟩
    | error error =>
        obtain ⟨spelling, text, received, failed⟩ := exists_failure_of_readTagFilters read
        rw [unfailed spelling text received] at failed
        cases failed

/-- The tag filters that were read are the records of the passes over their fragments. -/
theorem mem_readTagFilters_iff (read : readTagFilters body = .ok filters) :
    tag ∈ filters ↔ ∃ spelling text, FiltersReceive body spelling text ∧
      tag ∈ Piece.records (TagReference.scan spelling text).pieces := by
  obtain ⟨rewritten, ok⟩ := exists_onParts_of_readTagFilters read
  have members : tag ∈ filters ↔ _ := Phase.mem_onParts_iff ok
  simp only [List.not_mem_nil, false_or] at members
  rw [members]
  constructor
  · rintro ⟨part, spelling, text, received, member⟩
    cases part_eq_clause received
    exact ⟨spelling, text, received, member⟩
  · rintro ⟨spelling, text, received, member⟩
    exact ⟨.clause, spelling, text, received, member⟩

/-- A pass over a text comes to the head of an attribute reference, and `behind` stands directly
behind it. -/
def ComesTo (spelling : Spelling) (text : Text) (head : AttributeHead) (behind : Text) : Prop :=
  ∃ place, Scan.Reaches (step spelling text) text place ∧
    AttributeHead.read? spelling place = some (head, behind)

/-- What stands behind a head is the end of the text, with something in front of it. -/
theorem ComesTo.suffix {head : AttributeHead} {behind : Text}
    (comes : ComesTo spelling text head behind) : behind <:+ text := by
  obtain ⟨place, reaches, read⟩ := comes
  exact (AttributeHead.read?_isRestOf read).1.trans reaches.suffix

/-- The tag filters behind a head are a stretch of the text. -/
theorem ComesTo.stretch {head : AttributeHead} {behind : Text}
    (comes : ComesTo spelling text head (filtersOpening ++ (body ++ ')' :: behind))) :
    body <:+: text :=
  List.IsInfix.trans ⟨filtersOpening, ')' :: behind, by simp⟩ comes.suffix.isInfix

theorem ne_nil_of_readHead? {head : AttributeHead} {behind : Text}
    (read : AttributeHead.read? spelling text = some (head, behind)) : text ≠ [] := by
  rw [(AttributeHead.spelled_of_read? read).1]
  exact List.cons_ne_nil _ _

/-- **A pass for attributes fails** exactly when it comes to tag filters that are not closed or that
cannot be read. -/
theorem failure_scan_eq_some_iff :
    (scan spelling text).failure = some error ↔
      ∃ head inside, ComesTo spelling text head (filtersOpening ++ inside) ∧
        (')' ∉ inside ∧
            error = ⟨.tagFilters, head.name, text.bytesBefore (filtersOpening ++ inside), .clause⟩ ∨
          ∃ body behind, inside = body ++ ')' :: behind ∧ ')' ∉ body ∧
            readTagFilters body = .error error) := by
  rw [scan, Scan.failure_eq_some_iff]
  constructor
  · rintro ⟨place, _, reaches, found⟩
    rw [found_step] at found
    split at found
    · cases found
    · rename_i head behind read
      split at found
      · cases found
      · rename_i inside opened
        cases List.append_eq_of_isPrefixOf?_eq_some opened
        refine ⟨head, inside, ⟨place, reaches, read⟩, ?_⟩
        split at found
        · rename_i unclosed
          cases found
          exact .inl ⟨Text.cut?_eq_none_iff.mp unclosed, rfl⟩
        · rename_i body rest closed
          obtain ⟨whole, free⟩ := Text.cut?_eq_some_iff.mp closed
          split at found
          · rename_i other failed
            cases found
            exact .inr ⟨body, rest, whole, free, failed⟩
          · cases found
  · rintro ⟨head, inside, ⟨place, reaches, read⟩, closing⟩
    refine ⟨place, ne_nil_of_readHead? read, reaches, ?_⟩
    have opened : filtersOpening.isPrefixOf? (filtersOpening ++ inside) = some inside :=
      List.isPrefixOf?_eq_some_iff_append_eq.mpr rfl
    rw [found_step]
    rcases closing with ⟨unclosed, rfl⟩ | ⟨body, behind, rfl, free, failed⟩
    · simp only [read, opened, Text.cut?_eq_none_iff.mpr unclosed]
    · simp only [read, opened, Text.cut?_eq_some_iff.mpr ⟨rfl, free⟩, failed]

/-- When a pass reaches the end, the tag filters that it comes to were read. -/
theorem ComesTo.exists_readTagFilters {head : AttributeHead} {behind : Text}
    (comes : ComesTo spelling text head (filtersOpening ++ (body ++ ')' :: behind)))
    (free : ')' ∉ body) (unfailed : (scan spelling text).failure = none) :
    ∃ filters, readTagFilters body = .ok filters := by
  cases read : readTagFilters body with
  | ok filters => exact ⟨filters, rfl⟩
  | error error =>
      have failed : (scan spelling text).failure = some error :=
        failure_scan_eq_some_iff.mpr ⟨head, _, comes, .inr ⟨body, behind, rfl, free, read⟩⟩
      rw [unfailed] at failed
      cases failed

/-- The records of a pass for attributes are those of the heads that it comes to, with the tag
filters that stand directly behind them. -/
theorem mem_records_scan_iff {reference : AttributeReference} :
    reference ∈ Piece.records (scan spelling text).pieces ↔
      ∃ head behind, ComesTo spelling text head behind ∧
        (¬ filtersOpening <+: behind ∧ reference = { head with tagFilters := none } ∨
          ∃ body rest filters, behind = filtersOpening ++ (body ++ ')' :: rest) ∧ ')' ∉ body ∧
            readTagFilters body = .ok filters ∧
            reference = { head with tagFilters := some filters }) := by
  rw [scan, Scan.mem_records_iff]
  constructor
  · rintro ⟨later, place, _, reaches, found⟩
    rw [found_step] at found
    split at found
    · cases found
    · rename_i head behind read
      refine ⟨head, behind, ⟨place, reaches, read⟩, ?_⟩
      split at found
      · rename_i unopened
        cases found
        refine .inl ⟨?_, rfl⟩
        rintro ⟨inside, rfl⟩
        rw [List.isPrefixOf?_eq_some_iff_append_eq.mpr rfl] at unopened
        cases unopened
      · rename_i inside opened
        cases List.append_eq_of_isPrefixOf?_eq_some opened
        split at found
        · cases found
        · rename_i body rest closed
          obtain ⟨rfl, free⟩ := Text.cut?_eq_some_iff.mp closed
          split at found
          · cases found
          · rename_i filters readFilters
            cases found
            exact .inr ⟨body, _, filters, rfl, free, readFilters, rfl⟩
  · rintro ⟨head, behind, ⟨place, reaches, read⟩, ⟨unopened, rfl⟩ |
      ⟨body, rest, filters, rfl, free, readFilters, rfl⟩⟩
    · refine ⟨behind, place, ne_nil_of_readHead? read, reaches, ?_⟩
      have absent : filtersOpening.isPrefixOf? behind = none := by
        rw [Option.eq_none_iff_forall_ne_some]
        intro inside opened
        exact unopened ⟨inside, List.append_eq_of_isPrefixOf?_eq_some opened⟩
      rw [found_step]
      simp only [read, absent]
    · refine ⟨rest, place, ne_nil_of_readHead? read, reaches, ?_⟩
      have opened : filtersOpening.isPrefixOf? (filtersOpening ++ (body ++ ')' :: rest)) =
          some (body ++ ')' :: rest) := List.isPrefixOf?_eq_some_iff_append_eq.mpr rfl
      rw [found_step]
      simp only [read, opened, Text.cut?_eq_some_iff.mpr ⟨rfl, free⟩, readFilters]

/-- The tag filters in the records of a pass for attributes are those that it comes to. -/
theorem mem_tagFilters_scan_iff :
    (∃ reference ∈ Piece.records (scan spelling text).pieces, tag ∈ reference.tagFilters.getD []) ↔
      ∃ head body behind filters,
        ComesTo spelling text head (filtersOpening ++ (body ++ ')' :: behind)) ∧ ')' ∉ body ∧
          readTagFilters body = .ok filters ∧ tag ∈ filters := by
  constructor
  · rintro ⟨reference, recorded, member⟩
    obtain ⟨head, _, comes, ⟨_, rfl⟩ | ⟨body, behind, filters, rfl, free, read, rfl⟩⟩ :=
      mem_records_scan_iff.mp recorded
    · cases member
    · exact ⟨head, body, behind, filters, comes, free, read, member⟩
  · rintro ⟨head, body, behind, filters, comes, free, read, member⟩
    refine ⟨{ head with tagFilters := some filters }, ?_, member⟩
    exact mem_records_scan_iff.mpr ⟨head, _, comes, .inr ⟨body, behind, filters, rfl, free, read,
      rfl⟩⟩

end AttributeReference

end NoteQuery
