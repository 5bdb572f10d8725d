import NoteQuery.Proofs.Query.Alike
import NoteQuery.Proofs.Reference.DataFilter
import NoteQuery.Proofs.Reference.Reached
import NoteQuery.Proofs.Reference.SkippedTags

/-! # Tags written back

A tag reference that was read from a query is written with its modifiers in one order and in
brackets only when its name holds a blank. Extracting the tags of what is written gives the record
back exactly when the record is readable (`TagReference.extract_written_iff`).
-/

namespace NoteQuery

open AttributeHead (OwnedBy)
open Delimiters (braces)

namespace QualifiedName

variable {name : QualifiedName} {spelling other : Spelling}

/-- The spelling in which a name is written. -/
def writtenIn (name : QualifiedName) : Spelling :=
  if name.joined.any isBlank then .bracketed else .plain

theorem written_eq (name : QualifiedName) : name.written = name.spelled name.writtenIn := by
  unfold written writtenIn
  split <;> rfl

theorem writtenIn_eq_plain_iff :
    name.writtenIn = .plain ↔ ∀ c ∈ name.joined, isBlank c = false := by
  unfold writtenIn
  split
  · rename_i blank
    refine iff_of_false (by simp) fun unblank => ?_
    obtain ⟨c, member, here⟩ := List.any_eq_true.mp blank
    rw [unblank c member] at here
    cases here
  · rename_i unblank
    exact iff_of_true rfl (by simpa using unblank)

/-- A name fits another spelling that admits its characters. -/
theorem Fits.of_admits (fits : name.Fits spelling)
    (admits : ∀ c ∈ name.joined, spelling.admits c = true → other.admits c = true) :
    name.Fits other := by
  obtain ⟨space, word⟩ := name
  cases space with
  | none =>
      obtain ⟨filled, admitted⟩ := fits_none_iff.mp fits
      exact fits_none_iff.mpr ⟨filled, fun c member => admits c member (admitted c member)⟩
  | some space =>
      obtain ⟨⟨filled, admitted⟩, filled', admitted'⟩ := fits_some_iff.mp fits
      refine fits_some_iff.mpr ⟨⟨filled, fun c member => ?_⟩, filled', fun c member => ?_⟩
      · exact admits c (List.mem_append_left _ member) (admitted c member)
      · have joined := List.mem_append_right space (List.mem_cons_of_mem '.' member)
        exact admits c joined (admitted' c member)

/-- A plain name holds no blank. -/
theorem Fits.writtenIn_eq_plain (fits : name.Fits .plain) : name.writtenIn = .plain := by
  rw [writtenIn_eq_plain_iff]
  obtain ⟨space, word⟩ := name
  intro c member
  cases space with
  | none => exact isBlank_of_isWord (fits.name_admitted c member)
  | some space =>
      rcases List.mem_append.mp member with early | late
      · exact isBlank_of_isWord (fits.space_admitted space rfl c early)
      · rcases List.mem_cons.mp late with rfl | late
        · rfl
        · exact isBlank_of_isWord (fits.name_admitted c late)

/-- A name fits the spelling in which it is written. -/
theorem Fits.fits_writtenIn (fits : name.Fits spelling) : name.Fits name.writtenIn := by
  cases spelling with
  | plain => rwa [fits.writtenIn_eq_plain]
  | bracketed =>
      cases written : name.writtenIn with
      | bracketed => exact fits
      | plain =>
          refine fits.of_admits fun c member admitted => ?_
          rw [writtenIn_eq_plain_iff] at written
          rwa [Spelling.admits, isWordOrBlank, written c member, Bool.or_false] at admitted

end QualifiedName

/-- The modifiers that a query spells are written with marks for them. -/
theorem TagModifiers.Marks.marks_written {marks : Text} {modifiers : TagModifiers}
    (marked : Marks marks modifiers) : Marks modifiers.written modifiers := by
  cases marked with
  | tilde => exact .tilde
  | hashes early more relaxed late =>
      have canonical := Marks.hashes false more relaxed (early || late)
      cases relaxed <;> cases early <;> cases late <;>
        simpa [TagModifiers.written, Text.optional] using canonical

namespace TagReference

variable {spelling : Spelling} {text marks behind clause : Text} {modifiers : TagModifiers}
  {name : QualifiedName} {tag : TagReference} {next : Nat}

/-- A pass finds no tag in a placeholder. -/
theorem scan_numbered (spelling : Spelling) (kind : Placeholder) (number : Nat) :
    scan spelling (kind.numbered number) = ⟨(kind.numbered number).map .plain, none⟩ :=
  scan_of_unmarked spelling fun _ => Placeholder.isMark_of_mem_numbered

/-- All tags in one spelling that can be read in a clause stand where attributes own them. -/
def AllOwned (spelling : Spelling) (clause : Text) : Prop :=
  OnlyBehind (fun front => ∃ owner, OwnedBy owner front) spelling clause

/-- A pass has no records exactly when attributes own all tags that can be read. -/
theorem records_eq_nil_iff (unfailed : (scan spelling clause).failure = none) :
    Piece.records (scan spelling clause).pieces = [] ↔ AllOwned spelling clause := by
  have whole := sources_scan unfailed
  constructor
  · rintro none front text rfl read
    have plain := Piece.eq_map_plain_of_records none
    cases text with
    | nil => cases read
    | cons c rest =>
        rw [whole, List.map_append, List.map_cons] at plain
        rw [← Piece.sources_plain rest] at read
        obtain ⟨owner, owned⟩ := ownedBy_of_plain unfailed plain read
        exact ⟨owner, by rwa [Piece.sources_plain] at owned⟩
  · intro settled
    refine List.eq_nil_iff_forall_not_mem.mpr fun tag member => ?_
    obtain ⟨front, spelled, back, split⟩ := Piece.mem_records_iff.mp member
    have found := found_scan unfailed split
    rw [split, Piece.sources_append, Piece.sources_cons_reference] at whole
    obtain ⟨owner, owned⟩ := settled _ _ whole.symm (read?_isSome_of_found found)
    exact not_ownedBy_of_reference unfailed split owned

/-- The data filter of a tag as it is written behind the name. -/
def suffix (tag : TagReference) : Text :=
  match tag.filter with
  | some filter => '{' :: (filter.written ++ ['}'])
  | none => []

/-- A tag reference as it is written, with given marks in the place of its modifiers. -/
def writtenWith (marks : Text) (tag : TagReference) : Text :=
  marks ++ (tag.toQualifiedName.written ++ tag.suffix)

theorem written_eq (tag : TagReference) :
    tag.written = tag.writtenWith tag.toTagModifiers.written := by
  rw [writtenWith, ← List.append_assoc]
  rfl

/-- What is known of a record that was read from a text. -/
structure Recorded (spelling : Spelling) (text : Text) (tag : TagReference) : Prop where
  marked : ∃ marks, TagModifiers.Marks marks tag.toTagModifiers
  named : tag.toQualifiedName.Fits spelling
  filtered : ∀ filter ∈ tag.filter, ∃ body, body <:+: text ∧ braces.Balanced body ∧
    filter = .ofBody body

theorem recorded_of_mem_records (member : tag ∈ Piece.records (scan spelling text).pieces) :
    tag.Recorded spelling text := by
  obtain ⟨bare, behind, comes, found⟩ := mem_records_scan_iff.mp member
  have suffix := comes.suffix
  obtain ⟨_, _, _, read⟩ := comes
  have unfiltered := filter_of_read? read
  obtain ⟨marks, rfl, marked, fits⟩ := spelled_of_read? read
  rcases found with ⟨_, rfl⟩ | ⟨body, rest, opened, closed, rfl⟩
  · refine ⟨⟨marks, marked⟩, fits, ?_⟩
    rw [unfiltered]
    rintro filter ⟨⟩
  · refine ⟨⟨marks, marked⟩, fits, ?_⟩
    rintro filter ⟨⟩
    refine ⟨body, ?_, DataFilter.closes_of_close? closed, rfl⟩
    rw [DataFilter.eq_append_of_closed opened closed] at suffix
    exact (List.IsInfix.trans ⟨['{'], '}' :: rest, by simp⟩ suffix.isInfix)

/-- The record that is read from what is written with marks for given modifiers. Braces that look
like the placeholder of a tag are no data filter. -/
def reread (modifiers : TagModifiers) (tag : TagReference) : TagReference :=
  { tag with
    toTagModifiers := modifiers
    filter := if Placeholder.tag.startsText tag.suffix then none
      else tag.filter.map fun filter => .ofBody filter.written }

/-- **When a written tag is read back.** No placeholder of a path was typed into the data filter,
the data filter does not look like the placeholder of a tag, and when the name is written in
brackets, which are read last, no plain tag is read before them. -/
structure Readable (tag : TagReference) : Prop where
  distinct : ∀ filter ∈ tag.filter, filter.Distinct
  unplaced : Placeholder.tag.startsText tag.suffix = false
  owned : tag.toQualifiedName.writtenIn = .bracketed → AllOwned .plain tag.written

theorem reread_eq_self_iff (recorded : tag.Recorded spelling text) :
    tag.reread modifiers = tag ↔ modifiers = tag.toTagModifiers ∧
      Placeholder.tag.startsText tag.suffix = false ∧ ∀ filter ∈ tag.filter, filter.Distinct := by
  have filtered := recorded.filtered
  obtain ⟨name, own, filter⟩ := tag
  simp only [reread, TagReference.mk.injEq, true_and]
  refine and_congr_right fun _ => ?_
  cases filter with
  | none => simp [suffix, Placeholder.startsText, List.isPrefixOf?]
  | some filter =>
      obtain ⟨body, _, _, rfl⟩ := filtered filter rfl
      simp [DataFilter.ofBody_written_iff]

/-- Where marks and a name stand in front of braces, the tag is read. -/
theorem read?_of_marks (marked : TagModifiers.Marks marks modifiers) (fits : name.Fits spelling)
    (ends : ∀ c ∈ behind.head?, c = '{') :
    read? spelling (marks ++ (name.spelled spelling ++ behind)) =
      some ({ name, modifiers with }, behind) := by
  have endsAt : name.EndsAt (fun _ => true) behind := by
    refine ⟨fun c first => ?_, fun _ => rfl, ?_⟩
    · rw [ends c first]
      rfl
    · rintro _ rest second more rfl
      cases ends '.' rfl
  have named := QualifiedName.read?_eq_some_iff.mpr ⟨rfl, fits, fun _ => endsAt⟩
  unfold read?
  rw [marked.read?_append (fits.head_not_modifier behind)]
  simp only [named]

theorem head_suffix (tag : TagReference) : ∀ c ∈ tag.suffix.head?, c = '{' := by
  unfold suffix
  split <;> simp [eq_comm]

theorem balanced_suffix (recorded : tag.Recorded spelling text) : braces.Balanced tag.suffix := by
  unfold suffix
  split
  · rename_i filter filtered
    obtain ⟨body, _, balanced, rfl⟩ := recorded.filtered filter filtered
    exact (DataFilter.balanced_written balanced).enclosed
  · exact Delimiters.balanced_of_not_mem List.not_mem_nil List.not_mem_nil

theorem balanced_writtenWith (recorded : tag.Recorded spelling text)
    (marked : TagModifiers.Marks marks modifiers) : braces.Balanced (tag.writtenWith marks) := by
  have fits := recorded.named.fits_writtenIn
  have front : braces.Balanced (marks ++ tag.toQualifiedName.written) := by
    rw [QualifiedName.written_eq]
    refine Delimiters.balanced_of_not_mem ?_ ?_
    · intro member
      cases isTagCharacter_of_mem marked fits member
    · intro member
      cases isTagCharacter_of_mem marked fits member
  rw [writtenWith, ← List.append_assoc]
  exact front.closes_append_iff.mpr (balanced_suffix recorded)

/-- No attribute owns the start of a text. -/
theorem owning?_start (outside : ∀ c ∈ clause.head?, c ∉ AttributeHead.filtersOpening) :
    OwnedBody.owning? (OwnedBody.ofClause clause) clause.length = none := by
  rw [Option.eq_none_iff_forall_ne_some]
  intro body owned
  have owned : OwnedBody.owning? (OwnedBody.ofClause ([] ++ clause)) clause.length = some body :=
    owned
  obtain ⟨⟨_, before, head, inside, whole, _⟩, _⟩ := OwnedBody.ownedBy_of_owning? outside owned
  simp [AttributeHead.spelled] at whole

/-- A tag in front of a balanced text in braces is found together with it, unless the braces look
like the placeholder of a tag. -/
theorem found_of_marks {body : Text} (marked : TagModifiers.Marks marks modifiers)
    (fits : name.Fits spelling) (balanced : braces.Balanced body)
    (whole : text = marks ++ (name.spelled spelling ++ '{' :: (body ++ ['}']))) :
    (step spelling text (OwnedBody.ofClause text) text).found =
      if Placeholder.tag.startsText ('{' :: (body ++ ['}'])) then
        .reference { name, modifiers with } ('{' :: (body ++ ['}']))
      else .reference { name, modifiers with filter := some (.ofBody body) } [] := by
  have read : read? spelling text = some ({ name, modifiers with }, '{' :: (body ++ ['}'])) := by
    rw [whole]
    exact read?_of_marks marked fits fun c first => (Option.some.inj first).symm
  have unowned := owning?_start (outside_of_read? read)
  have closed : DataFilter.close? 0 (body ++ ['}']) = some (body, []) :=
    DataFilter.close?_of_closes balanced []
  rw [found_step]
  simp only [read, unowned]
  cases placed : Placeholder.tag.startsText ('{' :: (body ++ ['}'])) with
  | true => simp [DataFilter.opens, placed]
  | false => simp [DataFilter.opens, placed, closed]

/-- A pass in the spelling of the name finds the written tag where it starts. -/
theorem found_writtenWith (recorded : tag.Recorded spelling text)
    (marked : TagModifiers.Marks marks modifiers) :
    (step tag.toQualifiedName.writtenIn (tag.writtenWith marks)
        (OwnedBody.ofClause (tag.writtenWith marks)) (tag.writtenWith marks)).found =
      .reference (tag.reread modifiers)
        (if Placeholder.tag.startsText tag.suffix then tag.suffix else []) := by
  have fits := recorded.named.fits_writtenIn
  have whole : tag.writtenWith marks =
      marks ++ (tag.toQualifiedName.spelled tag.toQualifiedName.writtenIn ++ tag.suffix) := by
    rw [writtenWith, QualifiedName.written_eq]
  cases filtered : tag.filter with
  | none =>
      have empty : tag.suffix = [] := by rw [suffix, filtered]
      have read : read? tag.toQualifiedName.writtenIn (tag.writtenWith marks) =
          some ({ tag.toQualifiedName, modifiers with }, tag.suffix) := by
        rw [whole]
        exact read?_of_marks marked fits tag.head_suffix
      rw [found_step]
      simp only [read, owning?_start (outside_of_read? read)]
      simp [empty, DataFilter.opens, reread, filtered]
  | some filter =>
      have braced : tag.suffix = '{' :: (filter.written ++ ['}']) := by rw [suffix, filtered]
      obtain ⟨body, _, balanced, rfl⟩ := recorded.filtered filter filtered
      rw [braced] at whole
      rw [found_of_marks marked fits (DataFilter.balanced_written balanced) whole, ← braced]
      cases placed : Placeholder.tag.startsText tag.suffix <;> simp [reread, placed, filtered]

/-- A pass in the spelling of the name reads the written tag first. -/
theorem records_writtenWith (recorded : tag.Recorded spelling text)
    (marked : TagModifiers.Marks marks modifiers) :
    ∃ more, Piece.records (scan tag.toQualifiedName.writtenIn (tag.writtenWith marks)).pieces =
      tag.reread modifiers :: more := by
  have found := found_writtenWith recorded marked
  cases placed : Placeholder.tag.startsText tag.suffix with
  | true =>
      rw [placed, if_pos rfl] at found
      have whole : tag.writtenWith marks = marks ++ tag.toQualifiedName.written ++ tag.suffix := by
        rw [writtenWith, List.append_assoc]
      rw [scan, Scan.ofSteps_of_reference whole found]
      exact ⟨_, rfl⟩
  | false =>
      rw [placed, if_neg Bool.false_ne_true] at found
      rw [scan, Scan.ofSteps_of_reference (List.append_nil _).symm found]
      exact ⟨_, rfl⟩

/-- It reads nothing else when the data filter does not look like a placeholder. -/
theorem scan_writtenWith (recorded : tag.Recorded spelling text)
    (marked : TagModifiers.Marks marks modifiers)
    (unplaced : Placeholder.tag.startsText tag.suffix = false) :
    scan tag.toQualifiedName.writtenIn (tag.writtenWith marks) =
      ⟨[.reference (tag.writtenWith marks) (tag.reread modifiers)], none⟩ := by
  have found := found_writtenWith recorded marked
  rw [unplaced, if_neg Bool.false_ne_true] at found
  rw [scan, Scan.ofSteps_of_reference (List.append_nil _).symm found, Scan.ofSteps]
  rfl

/-- In a balanced text both passes reach the end. -/
theorem completes_of_balanced (balanced : braces.Balanced clause) (next : Nat) :
    phase.Completes clause next :=
  ⟨failure_of_balanced balanced, failure_of_balanced (balanced_numbered balanced next)⟩

/-- When no plain tag is read before it, the two passes read the written tag first. -/
theorem added_writtenWith (recorded : tag.Recorded spelling text)
    (marked : TagModifiers.Marks marks modifiers)
    (early : tag.toQualifiedName.writtenIn = .bracketed →
      Piece.records (scan .plain (tag.writtenWith marks)).pieces = []) (next : Nat) :
    ∃ more, phase.added (tag.writtenWith marks) next = tag.reread modifiers :: more := by
  obtain ⟨more, read⟩ := records_writtenWith recorded marked
  cases written : tag.toQualifiedName.writtenIn with
  | plain =>
      rw [written] at read
      have first : phase.added (tag.writtenWith marks) next =
        Piece.records (scan .plain (tag.writtenWith marks)).pieces ++ _ := rfl
      exact ⟨_, by rw [first, read, List.cons_append]⟩
  | bracketed =>
      rw [written] at read
      have unfailed : (phase.scan .plain (tag.writtenWith marks)).failure = none :=
        failure_of_balanced (balanced_writtenWith recorded marked)
      have halfway : phase.halfway (tag.writtenWith marks) next = tag.writtenWith marks :=
        Phase.numbered_of_records_eq_nil unfailed (early written) _ _
      have last : phase.added (tag.writtenWith marks) next =
          Piece.records (scan .plain (tag.writtenWith marks)).pieces ++
            Piece.records (scan .bracketed (phase.halfway (tag.writtenWith marks) next)).pieces :=
        rfl
      exact ⟨more, by rw [last, early written, halfway, read, List.nil_append]⟩

/-- When the data filter does not look like a placeholder either, they read nothing else. -/
theorem alone_writtenWith (recorded : tag.Recorded spelling text)
    (marked : TagModifiers.Marks marks modifiers)
    (early : tag.toQualifiedName.writtenIn = .bracketed →
      Piece.records (scan .plain (tag.writtenWith marks)).pieces = [])
    (unplaced : Placeholder.tag.startsText tag.suffix = false) (next : Nat) :
    phase.Completes (tag.writtenWith marks) next ∧
      phase.rewritten (tag.writtenWith marks) next = Placeholder.tag.numbered next ∧
      phase.added (tag.writtenWith marks) next = [tag.reread modifiers] := by
  refine Phase.alone_of_scan (scan_writtenWith recorded marked unplaced) (fun bracketed => ?_)
    (scan_numbered .bracketed .tag) next
  exact ⟨failure_of_balanced (balanced_writtenWith recorded marked), early bracketed⟩

/-- What the two passes read from a written tag is at least one record, and it is the tag alone
exactly when its modifiers are marked and it is readable. -/
theorem added_writtenWith_eq_singleton_iff (recorded : tag.Recorded spelling text)
    (marked : TagModifiers.Marks marks modifiers) (next : Nat) :
    phase.added (tag.writtenWith marks) next ≠ [] ∧
      (phase.added (tag.writtenWith marks) next = [tag] ↔
        tag.reread modifiers = tag ∧
          (tag.toQualifiedName.writtenIn = .bracketed →
            AllOwned .plain (tag.writtenWith marks))) := by
  have unfailed : (scan .plain (tag.writtenWith marks)).failure = none :=
    failure_of_balanced (balanced_writtenWith recorded marked)
  rw [← records_eq_nil_iff unfailed]
  by_cases early : tag.toQualifiedName.writtenIn = .bracketed →
      Piece.records (scan .plain (tag.writtenWith marks)).pieces = []
  · obtain ⟨more, added⟩ := added_writtenWith recorded marked early next
    refine ⟨added ▸ List.cons_ne_nil _ _, ?_⟩
    constructor
    · intro alone
      rw [added, List.cons.injEq] at alone
      exact ⟨alone.1, early⟩
    · rintro ⟨same, _⟩
      have unplaced := ((reread_eq_self_iff recorded).mp same).2.1
      rw [(alone_writtenWith recorded marked early unplaced next).2.2, same]
  · rw [Classical.not_imp] at early
    obtain ⟨bracketed, filled⟩ := early
    have first : phase.added (tag.writtenWith marks) next = Piece.records
        (scan .plain (tag.writtenWith marks)).pieces ++ _ := rfl
    refine ⟨fun empty => filled (List.append_eq_nil_iff.mp (first.symm.trans empty)).1, ?_⟩
    refine iff_of_false ?_ (fun both => filled (both.2 bracketed))
    intro alone
    rw [first] at alone
    obtain ⟨found, more, plain⟩ := List.exists_cons_of_ne_nil filled
    rw [plain, List.cons_append, List.cons.injEq] at alone
    have member : found ∈ Piece.records (scan .plain (tag.writtenWith marks)).pieces := by
      rw [plain]
      exact List.mem_cons_self
    have fits := (recorded_of_mem_records member).named
    rw [alone.1] at fits
    rw [fits.writtenIn_eq_plain] at bracketed
    cases bracketed

/-- **A tag is read back from what is written** exactly when it is readable. -/
theorem extract_written_iff (recorded : tag.Recorded spelling text) (known : List TagReference) :
    extract tag.written known =
        ⟨.ok (Placeholder.tag.numbered known.length), known ++ [tag]⟩ ↔ tag.Readable := by
  obtain ⟨_, marked⟩ := recorded.marked
  have canonical := marked.marks_written
  obtain ⟨_, alone⟩ := added_writtenWith_eq_singleton_iff recorded canonical known.length
  rw [reread_eq_self_iff recorded] at alone
  rw [← extractor_phase, Phase.extractor_eq_ok_iff, List.append_right_inj, written_eq]
  constructor
  · rintro ⟨_, _, added⟩
    obtain ⟨⟨_, unplaced, distinct⟩, owned⟩ := alone.mp added.symm
    exact ⟨distinct, unplaced, by rwa [written_eq]⟩
  · intro readable
    have owned := readable.owned
    rw [written_eq] at owned
    have balanced := balanced_writtenWith recorded canonical
    obtain ⟨completes, rewritten, _⟩ := alone_writtenWith recorded canonical
      (fun bracketed => (records_eq_nil_iff (failure_of_balanced balanced)).mpr (owned bracketed))
      readable.unplaced known.length
    exact ⟨completes, rewritten.symm,
      (alone.mpr ⟨⟨rfl, readable.unplaced, readable.distinct⟩, owned⟩).symm⟩

/-- A tag without a data filter is readable. -/
theorem readable_of_filter_eq_none (recorded : tag.Recorded spelling text)
    (unfiltered : tag.filter = none) : tag.Readable := by
  obtain ⟨_, marked⟩ := recorded.marked
  have canonical := marked.marks_written
  have suffix : tag.suffix = [] := by rw [suffix, unfiltered]
  refine ⟨by rw [unfiltered]; rintro filter ⟨⟩, by rw [suffix]; rfl, ?_⟩
  intro bracketed front place same read
  have fits := recorded.named.fits_writtenIn
  rw [written_eq, writtenWith, suffix, List.append_nil, QualifiedName.written_eq] at same
  rw [bracketed] at same fits
  have unread : read? .plain place = none := by
    have whole : front ++ place = tag.toTagModifiers.written ++
        (tag.toQualifiedName.spelled .bracketed ++ []) := by
      rw [List.append_nil, same]
    refine read?_plain_of_inside canonical fits whole ?_
    rw [same]
    cases place with
    | nil => cases read
    | cons c rest => simp
  rw [unread] at read
  cases read

end TagReference

end NoteQuery
