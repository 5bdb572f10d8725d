import NoteQuery.Proofs.Reference.Reached
import NoteQuery.Proofs.Reference.SkippedTags
import NoteQuery.Proofs.Scan.TwoPasses

/-! # What the tag extraction replaces

Where nobody typed a brace, the two passes of the tag extraction cut a clause into tag references
and the text between them (`TagReference.Cut`). They never fail, they leave the tag filters of
attributes alone, and outside of these no tag reference is left behind
(`TagReference.extract_cut`). The second pass reads what the first one has written; a tag in
brackets holds no plain one (`TagReference.read?_plain_of_inside`), so the first pass leaves it as
it is.
-/

namespace NoteQuery

open AttributeHead (OwnedBy)

namespace TagModifiers

variable {marks : Text} {modifiers : TagModifiers}

/-- The depth of modifiers is the number of hashes among their marks. -/
theorem Marks.searchDepth_eq (marked : Marks marks modifiers) :
    modifiers.searchDepth = marks.count '#' := by
  cases marked with
  | tilde => rfl
  | hashes early more relaxed late =>
      cases early <;> cases relaxed <;> cases late <;> simp [Text.optional]

/-- A question mark among the marks makes the depth not strict. -/
theorem Marks.strictSearchDepth_iff (marked : Marks marks modifiers) :
    modifiers.strictSearchDepth = true ↔ '?' ∉ marks := by
  cases marked with
  | tilde => decide
  | hashes early more relaxed late =>
      cases early <;> cases relaxed <;> cases late <;> simp [Text.optional]

/-- A tilde among the marks includes the owner. -/
theorem Marks.includeOwner_iff (marked : Marks marks modifiers) :
    modifiers.includeOwner = true ↔ '~' ∈ marks := by
  cases marked with
  | tilde => decide
  | hashes early more relaxed late =>
      cases early <;> cases relaxed <;> cases late <;> simp [Text.optional]

end TagModifiers

namespace TagReference

/-- Whether modifiers and a name in one spelling stand at the start of a text. -/
def Begins (spelling : Spelling) (text : Text) : Prop :=
  ∃ (marks : Text) (modifiers : TagModifiers) (name : QualifiedName) (rest : Text),
    text = marks ++ (name.spelled spelling ++ rest) ∧ TagModifiers.Marks marks modifiers ∧
      name.Fits spelling

/-- A tag reference without a data filter is spelled with `marks` and its name, in front of
`behind`. A plain name takes the longest words there are; how deep to search is the number of hash
signs, a question mark makes the depth a bound, and a tilde includes the owner. -/
structure Stands (spelling : Spelling) (tag : TagReference) (marks behind : Text) : Prop where
  marked : TagModifiers.Marks marks tag.toTagModifiers
  fits : tag.toQualifiedName.Fits spelling
  ends : spelling = .plain → tag.toQualifiedName.EndsAt (fun _ => true) behind
  searchDepth_eq : tag.searchDepth = marks.count '#'
  strictSearchDepth_iff : tag.strictSearchDepth = true ↔ '?' ∉ marks
  includeOwner_iff : tag.includeOwner = true ↔ '~' ∈ marks
  filter_eq : tag.filter = none

/-- No attribute of a clause owns the start of the text that is left there. -/
def Unowned (clause place : Text) : Prop :=
  ∀ body ∈ OwnedBody.ofClause clause, body.covers place.length = false

/-- A clause is cut into tag references and the text between them, where `known` records are known
before and `added` are those of the references. -/
structure Cut (clause : Text) (known added : List TagReference)
    (pieces : List (Piece (Replacement TagReference))) : Prop where
  sources_eq : Piece.sources pieces = clause
  /-- Plain names are numbered first, from the left, and then those in brackets. -/
  counted : Piece.CountedFrom known.length
    (known.length + (Piece.numbersIn .plain pieces).length) pieces
  numbers_perm : ((Piece.records pieces).map (·.number)).Perm
    (List.range' known.length added.length)
  recorded : ∀ replacement ∈ Piece.records pieces,
    (known ++ added)[replacement.number]? = some replacement.record
  stands : ∀ front spelled replacement back,
    pieces = front ++ .reference spelled replacement :: back →
      ∃ marks, spelled =
          marks ++ replacement.record.toQualifiedName.spelled replacement.spelling ∧
        replacement.record.Stands replacement.spelling marks (Piece.sources back) ∧
        Unowned clause (spelled ++ Piece.sources back)
  between : ∀ front c back, pieces = front ++ .plain c :: back →
    Unowned clause (c :: Piece.sources back) →
      ∀ spelling, ¬ Begins spelling (c :: Piece.sources back)

variable {spelling : Spelling} {clause text spelled behind : Text} {tag : TagReference}
  {next : Nat}

/-- A tag begins exactly where one is read. -/
theorem begins_iff : Begins spelling text ↔ (read? spelling text).isSome := by
  constructor
  · rintro ⟨marks, modifiers, name, rest, rfl, marked, fits⟩
    exact read?_isSome_of_marks marked fits rest
  · intro read
    obtain ⟨⟨tag, behind⟩, read⟩ := Option.isSome_iff_exists.mp read
    obtain ⟨marks, rfl, marked, fits⟩ := spelled_of_read? read
    exact ⟨marks, tag.toTagModifiers, tag.toQualifiedName, behind, rfl, marked, fits⟩

/-- A place at which a tag is read is free exactly when no attribute owns it. -/
theorem unowned_iff {front place : Text} (read : (read? spelling place).isSome)
    (whole : clause = front ++ place) :
    Unowned clause place ↔ ∀ owner, ¬ OwnedBy owner front := by
  have owned : (OwnedBody.owning? (OwnedBody.ofClause (front ++ place)) place.length).isSome ↔ _ :=
    owning?_isSome_iff read
  rw [← whole] at owned
  rw [← not_exists, ← owned, Option.not_isSome_iff_eq_none, OwnedBody.owning?,
    List.find?_eq_none]
  simp [Unowned]

/-- No pass fails where no data filter opens. -/
theorem failure_of_unfiltered (spelling : Spelling) (unfiltered : Unfiltered clause) :
    (scan spelling clause).failure = none := by
  rw [Option.eq_none_iff_forall_ne_some]
  intro error failed
  obtain ⟨tag, inside, comes, matched, _⟩ := failure_scan_eq_some_iff.mp failed
  have opened := opens_of_matched matched
  rw [unfiltered _ comes.suffix] at opened
  cases opened

/-- Where no data filter opens, a reference of a pass is what is read there. -/
theorem read?_of_reference (unfiltered : Unfiltered clause)
    {front back : List (Piece TagReference)}
    (split : (scan spelling clause).pieces = front ++ .reference spelled tag :: back) :
    read? spelling (spelled ++ Piece.sources back) = some (tag, Piece.sources back) := by
  have unfailed := failure_of_unfiltered spelling unfiltered
  have whole := sources_scan unfailed
  have found := found_scan unfailed split
  rw [split, Piece.sources_append, Piece.sources_cons_reference] at whole
  rw [found_step] at found
  split at found
  · cases found
  · rename_i tag behind read
    split at found
    · cases found
    · have closed : DataFilter.opens behind = false :=
        unfiltered behind ((read?_isRestOf read).1.trans ⟨_, whole⟩)
      rw [closed, if_neg Bool.false_ne_true] at found
      cases found
      exact read

/-- What is read stands there. -/
theorem stands_of_read? (read : read? spelling (spelled ++ behind) = some (tag, behind)) :
    ∃ marks, spelled = marks ++ tag.toQualifiedName.spelled spelling ∧
      tag.Stands spelling marks behind := by
  obtain ⟨marks, whole, marked, fits⟩ := spelled_of_read? read
  rw [← List.append_assoc] at whole
  have same := List.append_cancel_right whole
  refine ⟨marks, same, marked, fits, ?_, marked.searchDepth_eq, marked.strictSearchDepth_iff,
    marked.includeOwner_iff, filter_of_read? read⟩
  rw [same, List.append_assoc, read?, marked.read?_append (fits.head_not_modifier behind)] at read
  cases named : QualifiedName.read? spelling (fun _ => true)
      (tag.toQualifiedName.spelled spelling ++ behind) with
  | none =>
      simp only [named] at read
      cases read
  | some result =>
      obtain ⟨name, rest⟩ := result
      simp only [named, Option.some.injEq, Prod.mk.injEq] at read
      obtain ⟨sameTag, rfl⟩ := read
      have sameName : name = tag.toQualifiedName := congrArg (·.toQualifiedName) sameTag
      exact sameName ▸ (QualifiedName.read?_eq_some_iff.mp named).2.2

/-- A name in brackets ends with its bracket, whatever stands behind it. -/
theorem Stands.of_bracketed {marks : Text} (stands : tag.Stands .bracketed marks behind)
    (other : Text) : tag.Stands .bracketed marks other :=
  { stands with ends := fun plain => by cases plain }

/-- Where a tag stands one is read, whatever follows. -/
theorem Stands.read?_isSome {marks : Text} (stands : tag.Stands spelling marks behind)
    (rest : Text) :
    (read? spelling (marks ++ tag.toQualifiedName.spelled spelling ++ rest)).isSome := by
  rw [List.append_assoc]
  exact read?_isSome_of_marks stands.marked stands.fits rest

/-- Pieces that are cut from a clause by the two passes of the tag extraction, neither of which
finds a data filter. -/
structure CutInPasses (clause : Text) (next : Nat)
    (pieces : List (Piece (Replacement TagReference))) : Prop where
  unfiltered : Unfiltered clause
  unfiltered_halfway : Unfiltered (phase.halfway clause next)
  first : (scan .plain clause).pieces = pieces.flatMap Piece.inFirst
  second : (scan .bracketed (phase.halfway clause next)).pieces =
    pieces.flatMap (Piece.inSecond .tag)
  counted : Piece.CountedFrom next (next + (Piece.numbersIn .plain pieces).length) pieces

/-- A clause without braces is cut by the two passes. -/
theorem exists_cutInPasses (unbraced : '{' ∉ clause) (next : Nat) :
    ∃ pieces, CutInPasses clause next pieces := by
  have start : OnlyPlaceholders [.tag] clause := .of_not_mem unbraced
  have halfway : OnlyPlaceholders [.tag] (phase.halfway clause next) :=
    Phase.only_numbered start List.mem_cons_self (failure_of_unfiltered .plain start.unfiltered)
  have unfailed := failure_of_unfiltered .bracketed halfway.unfiltered
  have spelled : ∀ text ∈ Piece.spellings (scan .bracketed (phase.halfway clause next)).pieces,
      '{' ∉ text ∧ ∃ c rest, text = c :: rest ∧ isMark c = true := by
    intro text member
    refine ⟨fun brace => ?_, (phase.isSpelling .bracketed _ text member).marked⟩
    cases (spelled_of_scan halfway.unfiltered unfailed member).2 _ brace
  obtain ⟨pieces, first, second, counted⟩ := Piece.exists_replaced
    (next + (Piece.records (scan .plain clause).pieces).length) spelled (sources_scan unfailed)
  change _ = (scan .plain clause).pieces at first
  rw [← first, Piece.length_records_inFirst] at counted
  exact ⟨pieces, start.unfiltered, halfway.unfiltered, first.symm, second.symm, counted⟩

namespace CutInPasses

variable {front back pieces : List (Piece (Replacement TagReference))} {c : Char}
  {piece : Piece (Replacement TagReference)} {replacement : Replacement TagReference}

theorem split_first (cut : CutInPasses clause next (front ++ piece :: back)) :
    (scan .plain clause).pieces =
      front.flatMap Piece.inFirst ++ (piece.inFirst ++ back.flatMap Piece.inFirst) := by
  rw [cut.first, List.flatMap_append, List.flatMap_cons]

theorem split_second (cut : CutInPasses clause next (front ++ piece :: back)) :
    (scan .bracketed (phase.halfway clause next)).pieces =
      front.flatMap (Piece.inSecond .tag) ++
        (piece.inSecond .tag ++ back.flatMap (Piece.inSecond .tag)) := by
  rw [cut.second, List.flatMap_append, List.flatMap_cons]

/-- The records of both passes are those of the references, in the order of the passes. -/
theorem added_eq (cut : CutInPasses clause next pieces) :
    phase.added clause next = (Piece.replacedIn .plain pieces).map (·.record) ++
      (Piece.replacedIn .bracketed pieces).map (·.record) := by
  rw [← Piece.records_inFirst, ← Piece.records_inSecond .tag, ← cut.first, ← cut.second]
  rfl

/-- Both passes write the placeholders of the references. -/
theorem rewritten_eq (cut : CutInPasses clause next pieces) :
    phase.rewritten clause next = Piece.filled .tag pieces := by
  rw [← cut.counted.numbered_inSecond, ← cut.second, ← Piece.length_records_inFirst, ← cut.first]
  rfl

theorem completes (cut : CutInPasses clause next pieces) : phase.Completes clause next :=
  ⟨failure_of_unfiltered .plain cut.unfiltered,
    failure_of_unfiltered .bracketed cut.unfiltered_halfway⟩

theorem sources_eq (cut : CutInPasses clause next pieces) :
    Piece.sources pieces = clause := by
  have whole := sources_scan cut.completes.1
  rwa [cut.first, Piece.sources_inFirst] at whole

/-- What the passes replace stands there. -/
theorem stands (cut : CutInPasses clause next
      (front ++ .reference spelled replacement :: back)) :
    ∃ marks, spelled = marks ++ replacement.record.toQualifiedName.spelled replacement.spelling ∧
      replacement.record.Stands replacement.spelling marks (Piece.sources back) := by
  obtain ⟨spelling, tag, number⟩ := replacement
  cases spelling with
  | plain =>
      have read := read?_of_reference cut.unfiltered cut.split_first
      change read? .plain (spelled ++ Piece.sources (back.flatMap Piece.inFirst)) =
        some (tag, Piece.sources (back.flatMap Piece.inFirst)) at read
      rw [Piece.sources_inFirst] at read
      exact stands_of_read? read
  | bracketed =>
      obtain ⟨marks, same, stands⟩ :=
        stands_of_read? (read?_of_reference cut.unfiltered_halfway cut.split_second)
      exact ⟨marks, same, stands.of_bracketed _⟩

/-- The passes replace nothing that an attribute owns. -/
theorem not_ownedBy (cut : CutInPasses clause next
      (front ++ .reference spelled replacement :: back)) (owner : Spelling) :
    ¬ OwnedBy owner (Piece.sources front) := by
  intro owned
  rw [← Piece.sources_inFirst] at owned
  obtain ⟨spelling, tag, number⟩ := replacement
  cases spelling with
  | plain => exact not_ownedBy_of_reference cut.completes.1 cut.split_first owned
  | bracketed =>
      have kept : OwnedBy owner (Piece.numbered .tag next (front.flatMap Piece.inFirst)) :=
        ownedBy_numbered cut.unfiltered cut.completes.1 cut.split_first owned
      rw [← cut.counted.of_append.1.sources_inSecond] at kept
      exact not_ownedBy_of_reference cut.completes.2 cut.split_second kept

/-- A tag in brackets is left as it is by the first pass. -/
theorem unstarted (cut : CutInPasses clause next (front ++ .plain c :: back))
    {marks rest : Text} {modifiers : TagModifiers} {name : QualifiedName}
    (marked : TagModifiers.Marks marks modifiers) (fits : name.Fits .bracketed)
    (begins : c :: Piece.sources back = marks ++ name.spelled .bracketed ++ rest) :
    ∃ behind, .plain c :: back.flatMap Piece.inFirst =
      (marks ++ name.spelled .bracketed).map .plain ++ behind := by
  have whole : Piece.sources (.plain c :: back.flatMap Piece.inFirst) =
      marks ++ name.spelled .bracketed ++ rest := by
    rw [Piece.sources_cons_plain, Piece.sources_inFirst, begins]
  refine (Piece.eq_plain_of_unstarted ?_ whole).imp fun _ parts => parts.1
  intro earlier other tag later split
  by_contra inside
  have first := cut.split_first
  rw [Piece.inFirst, List.singleton_append, split, ← List.append_assoc] at first
  have read := read?_of_reference cut.unfiltered first
  rw [split, Piece.sources_append, Piece.sources_cons_reference, List.append_assoc marks] at whole
  rw [read?_plain_of_inside marked fits whole (Nat.lt_of_not_le inside)] at read
  cases read

/-- The passes leave a tag only where an attribute owns the place. -/
theorem ownedBy (cut : CutInPasses clause next (front ++ .plain c :: back))
    (begins : Begins spelling (c :: Piece.sources back)) :
    ∃ owner, OwnedBy owner (Piece.sources front) := by
  have split := cut.split_first
  cases spelling with
  | plain =>
      rw [← Piece.sources_inFirst back, begins_iff] at begins
      rw [← Piece.sources_inFirst front]
      exact ownedBy_of_plain cut.completes.1 split begins
  | bracketed =>
      -- The second pass comes to the tag, since the first one has left it as it was.
      obtain ⟨marks, modifiers, name, rest, same, marked, fits⟩ := begins
      rw [← List.append_assoc] at same
      obtain ⟨behind, kept⟩ := cut.unstarted marked fits same
      obtain ⟨counted, counted'⟩ := cut.counted.of_append
      have written := counted'.sources_inSecond .tag
      change c :: Piece.sources (back.flatMap (Piece.inSecond .tag)) =
        Piece.numbered .tag _ (.plain c :: back.flatMap Piece.inFirst) at written
      have read : (read? .bracketed
          (c :: Piece.sources (back.flatMap (Piece.inSecond .tag)))).isSome := by
        rw [written, kept, Piece.numbered_map_plain_append, List.append_assoc]
        exact read?_isSome_of_marks marked fits _
      obtain ⟨owner, owned⟩ := ownedBy_of_plain cut.completes.2 cut.split_second read
      rw [counted.sources_inSecond] at owned
      have free := free_scan cut.completes.1
      rw [split] at free
      exact ⟨owner, Piece.sources_inFirst front ▸ free.of_append.ownedBy_sources owned⟩

end CutInPasses

/-- **The tag extraction replaces exactly the tag references** of a clause without braces: it never
fails, what was known is kept, and the clause is cut into references and the text between them. -/
theorem extract_cut (unbraced : '{' ∉ clause) (known : List TagReference) :
    ∃ (pieces : List (Piece (Replacement TagReference))) (added : List TagReference),
      extract clause known = ⟨.ok (Piece.filled .tag pieces), known ++ added⟩ ∧
        Cut clause known added pieces := by
  obtain ⟨pieces, cut⟩ := exists_cutInPasses unbraced known.length
  refine ⟨pieces, phase.added clause known.length, ?_, cut.sources_eq, cut.counted, ?_, ?_, ?_, ?_⟩
  · rw [← extractor_phase, Phase.extractor_eq_ok_iff]
    exact ⟨cut.completes, cut.rewritten_eq.symm, rfl⟩
  · rw [cut.added_eq, ← List.map_append, List.length_map, (Piece.replacedIn_perm pieces).length_eq]
    exact cut.counted.numbers_perm
  · rw [cut.added_eq]
    exact fun _ member => cut.counted.getElem?_number member
  · rintro front spelled replacement back rfl
    obtain ⟨marks, rfl, stands⟩ := cut.stands
    have whole := cut.sources_eq
    rw [Piece.sources_append, Piece.sources_cons_reference] at whole
    exact ⟨marks, rfl, stands,
      (unowned_iff (stands.read?_isSome _) whole.symm).mpr cut.not_ownedBy⟩
  · rintro front c back rfl unowned spelling begins
    obtain ⟨owner, owned⟩ := cut.ownedBy begins
    have whole := cut.sources_eq
    rw [Piece.sources_append, Piece.sources_cons_plain] at whole
    exact (unowned_iff (begins_iff.mp begins) whole.symm).mp unowned owner owned

/-- Numbers go to plain names first, and a tag in tag filters is left to the attribute. -/
theorem extract_cut_brackets :
    '{' ∉ "#?[b c] @x.On(#d) ~a".toList ∧
      ∃ (pieces : List (Piece (Replacement TagReference))) (added : List TagReference),
        Piece.filled .tag pieces = "{tag1} @x.On(#d) {tag0}".toList ∧
          Cut "#?[b c] @x.On(#d) ~a".toList [] added pieces := by
  have replaced : (extract "#?[b c] @x.On(#d) ~a".toList []).clause =
      .ok "{tag1} @x.On(#d) {tag0}".toList := by decide +kernel
  have unbraced : '{' ∉ "#?[b c] @x.On(#d) ~a".toList := by decide
  obtain ⟨pieces, added, extracted, cut⟩ := extract_cut unbraced []
  rw [extracted] at replaced
  exact ⟨unbraced, pieces, added, Except.ok.inj replaced, cut⟩

end TagReference

end NoteQuery
