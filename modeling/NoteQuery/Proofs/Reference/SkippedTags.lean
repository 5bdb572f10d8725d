import NoteQuery.Proofs.Query.Phases
import NoteQuery.Proofs.Reference.OwnedPieces

/-! # The tags that the tag phase skips

A pass of the tag extraction over a clause without data filters leaves a tag reference only in the
tag filters of an attribute (`TagReference.onlyBehind_numbered`), and it leaves such tag filters as
they are (`TagReference.ownedBy_numbered`). So behind both passes every tag reference that is left
stands where an attribute owns it (`TagReference.onlyBehind_rewritten`).
-/

namespace NoteQuery

open AttributeHead (OwnedBy filtersOpening)

/-- No data filter opens anywhere in a text. -/
def Unfiltered (clause : Text) : Prop :=
  ∀ place, place <:+ clause → DataFilter.opens place = false

/-- No data filter opens where all braces are those of the placeholders of tags. -/
theorem OnlyPlaceholders.unfiltered {text : Text} (only : OnlyPlaceholders [.tag] text) :
    Unfiltered text := by
  intro place suffix
  by_contra opened
  obtain ⟨rest, rfl⟩ := TagReference.eq_brace_cons_of_opens (Bool.not_eq_false _ ▸ opened)
  obtain ⟨kind, member, number, more, same⟩ := only rest suffix
  cases List.mem_singleton.mp member
  rw [DataFilter.opens, Placeholder.startsText_eq, ← same, Placeholder.read?_numbered] at opened
  simp at opened

namespace TagReference

variable {spelling other : Spelling} {clause : Text} {next : Nat}
  {front back : List (Piece TagReference)}

theorem sources_scan (unfailed : (scan spelling clause).failure = none) :
    Piece.sources (scan spelling clause).pieces = clause :=
  phase.sources_scan spelling clause unfailed

/-- What was found where a reference of a scan stands. -/
theorem found_scan (unfailed : (scan spelling clause).failure = none) {spelled : Text}
    {tag : TagReference}
    (split : (scan spelling clause).pieces = front ++ .reference spelled tag :: back) :
    (step spelling clause (OwnedBody.ofClause clause) (spelled ++ Piece.sources back)).found =
      .reference tag (Piece.sources back) :=
  (Scan.reads_ofSteps _ clause).found_reference unfailed split

/-- Without data filters the references of a scan consist of marks and names. -/
theorem spelled_of_scan (unfiltered : Unfiltered clause)
    (unfailed : (scan spelling clause).failure = none) {spelled : Text}
    (member : spelled ∈ Piece.spellings (scan spelling clause).pieces) :
    (∃ c rest, spelled = c :: rest ∧ isTagMark c = true) ∧
      ∀ c ∈ spelled, isTagCharacter c = true := by
  obtain ⟨front, tag, back, split⟩ := Piece.split_of_mem_spellings member
  have whole := sources_scan unfailed
  rw [split, Piece.sources_append, Piece.sources_cons_reference] at whole
  obtain ⟨marks, marked, fits, rfl | ⟨body, rfl, opened⟩⟩ :=
    spelled_of_found (found_scan unfailed split)
  · refine ⟨?_, fun c inside => isTagCharacter_of_mem marked fits inside⟩
    obtain ⟨c, tail, rfl, mark⟩ := marked.eq_cons
    exact ⟨c, _, rfl, by rcases mark with rfl | rfl <;> rfl⟩
  · rw [unfiltered _ ⟨Piece.sources front ++ (marks ++ tag.toQualifiedName.spelled spelling), ?_⟩]
      at opened
    · cases opened
    · rw [← whole]
      simp only [List.append_assoc, List.cons_append, List.nil_append]

/-- Where a tag reference was read and no data filter can be unclosed, a plain character was kept
because an attribute owns its place. -/
theorem ownedBy_of_plain (unfailed : (scan spelling clause).failure = none) {c : Char}
    (split : (scan spelling clause).pieces = front ++ .plain c :: back)
    (read : (read? spelling (c :: Piece.sources back)).isSome) :
    ∃ owner, OwnedBy owner (Piece.sources front) := by
  have whole := sources_scan unfailed
  rcases (Scan.reads_ofSteps _ clause).found_plain unfailed split with
    found | ⟨earlier, kept, behind, rfl, found, ends⟩
  · rw [found_step] at found
    obtain ⟨⟨tag, behind⟩, read⟩ := Option.isSome_iff_exists.mp read
    simp only [read] at found
    split at found
    · cases found
    · split at found
      · split at found <;> cases found
      · cases found
  · rw [found_step] at found
    split at found
    · cases found
    · rename_i tag rest reads
      split at found
      · rename_i body owned
        cases found
        rw [split, Piece.sources_append, Piece.sources_append, Piece.sources_plain,
          Piece.sources_cons_plain, List.append_assoc] at whole
        rw [← whole] at owned
        obtain ⟨⟨owner, before, head, inside, front, fits, unclosed⟩, closing⟩ :=
          OwnedBody.ownedBy_of_owning? (outside_of_read? reads) owned
        rw [closing] at ends
        have within : ')' ∉ kept := by
          intro closed
          rw [OwnedBody.behind_append_of_mem closed] at ends
          have longer := ends.length_le
          rw [List.length_append, List.length_cons] at longer
          omega
        refine ⟨owner, before, head, inside ++ kept, ?_, fits, ?_⟩
        · rw [Piece.sources_append, Piece.sources_plain, front]
          simp only [List.append_assoc]
        · rw [List.mem_append, not_or]
          exact ⟨unclosed, within⟩
      · split at found
        · split at found <;> cases found
        · cases found

/-- No reference is replaced where an attribute owns the place. -/
theorem not_ownedBy_of_reference (unfailed : (scan spelling clause).failure = none)
    {spelled : Text} {tag : TagReference}
    (split : (scan spelling clause).pieces = front ++ .reference spelled tag :: back)
    {owner : Spelling} : ¬ OwnedBy owner (Piece.sources front) := by
  intro owned
  have whole := sources_scan unfailed
  have found := found_scan unfailed split
  rw [split, Piece.sources_append, Piece.sources_cons_reference] at whole
  have filled : spelled ++ Piece.sources back ≠ [] := by
    have spelling := phase.isSpelling spelling clause spelled (by
      change spelled ∈ Piece.spellings (scan spelling clause).pieces
      rw [split]
      simp)
    intro empty
    exact spelling.ne_nil (List.append_eq_nil_iff.mp empty).1
  obtain ⟨body, covered⟩ := Option.isSome_iff_exists.mp (OwnedBody.owning?_isSome owned filled)
  rw [whole] at covered
  rw [found_step] at found
  split at found
  · cases found
  · rw [covered] at found
    cases found

/-- No pass replaces a reference where an attribute owns the place. -/
theorem free_scan (unfailed : (scan spelling clause).failure = none) :
    Piece.Free (scan spelling clause).pieces :=
  fun _ _ _ _ split _ => not_ownedBy_of_reference unfailed split

/-- Where a tag reference is read, some body owns the place exactly when an attribute does. -/
theorem owning?_isSome_iff {before text : Text} (read : (read? spelling text).isSome) :
    (OwnedBody.owning? (OwnedBody.ofClause (before ++ text)) text.length).isSome ↔
      ∃ owner, OwnedBy owner before := by
  obtain ⟨⟨tag, behind⟩, read⟩ := Option.isSome_iff_exists.mp read
  constructor
  · intro owned
    obtain ⟨body, owned⟩ := Option.isSome_iff_exists.mp owned
    exact (OwnedBody.ownedBy_of_owning? (outside_of_read? read) owned).1
  · rintro ⟨owner, owned⟩
    obtain ⟨c, rest, rfl, _⟩ := eq_cons_of_read? read
    exact OwnedBody.owning?_isSome owned (List.cons_ne_nil c rest)

/-- What a pass replaces starts with the sign of a tag. -/
theorem marked_of_scan {spelled : Text}
    (member : spelled ∈ Piece.spellings (scan spelling clause).pieces) :
    ∃ c rest, spelled = c :: rest ∧ isTagMark c = true := by
  obtain ⟨tag, behind, found⟩ := (Scan.reads_ofSteps _ clause).reference_found member
  obtain ⟨marks, marked, _, spelled⟩ := spelled_of_found found
  obtain ⟨c, tail, rfl, mark⟩ := marked.eq_cons
  have isMarked : isTagMark c = true := by rcases mark with rfl | rfl <;> rfl
  rcases spelled with rfl | ⟨body, rfl, _⟩
  · exact ⟨c, _, rfl, isMarked⟩
  · exact ⟨c, _, rfl, isMarked⟩

/-- Tag filters of an attribute are plain characters for a pass when no data filter that it replaces
holds the sign of an attribute. -/
theorem owned_of_unsigned
    (unsigned : ∀ spelled ∈ Piece.spellings (scan spelling clause).pieces, '@' ∉ spelled)
    (unfailed : (scan spelling clause).failure = none)
    (split : (scan spelling clause).pieces = front ++ back) {owner : Spelling}
    (owned : OwnedBy owner (Piece.sources front)) : Piece.Owned owner front := by
  have free := free_scan unfailed
  rw [split] at free
  refine free.of_append.owned_of_sources (fun spelled member => ?_) owned
  have replaced : spelled ∈ Piece.spellings (scan spelling clause).pieces := by
    rw [split, Piece.spellings_append]
    exact List.mem_append_left _ member
  exact ⟨marked_of_scan replaced, unsigned spelled replaced⟩

/-- Without data filters a pass leaves the tag filters of attributes as they are. -/
theorem ownedBy_numbered (unfiltered : Unfiltered clause)
    (unfailed : (scan spelling clause).failure = none)
    (split : (scan spelling clause).pieces = front ++ back) {owner : Spelling}
    (owned : OwnedBy owner (Piece.sources front)) :
    OwnedBy owner (Piece.numbered .tag next front) := by
  refine (owned_of_unsigned ?_ unfailed split owned).ownedBy_numbered .tag next
  intro spelled member sign
  cases (spelled_of_scan unfiltered unfailed member).2 _ sign

/-- Every tag reference in one spelling stands behind a text with a given property. -/
def OnlyBehind (place : Text → Prop) (spelling : Spelling) (clause : Text) : Prop :=
  ∀ front text, clause = front ++ text → (read? spelling text).isSome → place front

/-- A pass leaves tag references in its spelling only where attributes own them. -/
theorem onlyBehind_numbered (unfiltered : Unfiltered clause)
    (unfailed : (scan spelling clause).failure = none) :
    OnlyBehind (fun front => ∃ owner, OwnedBy owner front) spelling
      (Piece.numbered .tag next (scan spelling clause).pieces) := by
  intro front text same read
  obtain ⟨front, c, back, split, rfl, stands⟩ := split_read? same read
  obtain ⟨owner, owned⟩ := ownedBy_of_plain unfailed split stands
  exact ⟨owner, ownedBy_numbered unfiltered unfailed split owned⟩

/-- A pass keeps references in the other spelling where attributes own them. -/
theorem OnlyBehind.numbered (settled : OnlyBehind (fun front => ∃ owner, OwnedBy owner front) other
      clause) (unfiltered : Unfiltered clause)
    (unfailed : (scan spelling clause).failure = none) :
    OnlyBehind (fun front => ∃ owner, OwnedBy owner front) other
      (Piece.numbered .tag next (scan spelling clause).pieces) := by
  intro front text same read
  obtain ⟨front, c, back, split, rfl, stands⟩ := split_read? same read
  have whole := sources_scan unfailed
  rw [split, Piece.sources_append] at whole
  obtain ⟨owner, owned⟩ := settled _ _ whole.symm stands
  exact ⟨owner, ownedBy_numbered unfiltered unfailed split owned⟩

/-- Behind the tag phase every tag reference that is left stands where an attribute owns it, when
the clause held no brace. -/
theorem onlyBehind_rewritten (unbraced : '{' ∉ clause) (completes : phase.Completes clause next)
    (spelling : Spelling) :
    OnlyBehind (fun front => ∃ owner, OwnedBy owner front) spelling
      (phase.rewritten clause next) := by
  have start : OnlyPlaceholders [.tag] clause := .of_not_mem unbraced
  have halfway : OnlyPlaceholders [.tag] (phase.halfway clause next) :=
    Phase.only_numbered start List.mem_cons_self completes.1
  cases spelling with
  | plain =>
      have settled : OnlyBehind _ .plain (phase.halfway clause next) :=
        onlyBehind_numbered start.unfiltered completes.1
      exact settled.numbered halfway.unfiltered completes.2
  | bracketed => exact onlyBehind_numbered halfway.unfiltered completes.2

end TagReference

end NoteQuery
