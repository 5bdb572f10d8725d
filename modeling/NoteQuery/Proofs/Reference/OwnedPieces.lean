import NoteQuery.Proofs.Reference.Ownership
import NoteQuery.Proofs.Scan.Pieces

/-! # Tag filters among the pieces of a clause

Whether an attribute owns a place is asked of the clause that a pass reads, and it can be asked of
the text that the pass writes. When no reference is replaced where an attribute owns the place
(`Piece.Free`), an attribute owns the end of the written text only if its head and its open tag
filters were read as plain characters (`Piece.Free.owned_of_numbered`), so that it owned the place
in the clause, too. The other direction needs that the head did not stand in a data filter
(`Piece.Free.owned_of_sources`).
-/

namespace NoteQuery

open AttributeHead (OwnedBy filtersOpening)

/-- A place stays owned until a parenthesis closes the tag filters. -/
theorem AttributeHead.OwnedBy.append {owner : Spelling} {front more : Text}
    (owned : OwnedBy owner front) (unclosed : ')' ∉ more) : OwnedBy owner (front ++ more) := by
  obtain ⟨before, head, inside, rfl, fits, free⟩ := owned
  refine ⟨before, head, inside ++ more, by simp only [List.append_assoc], fits, ?_⟩
  rw [List.mem_append, not_or]
  exact ⟨free, unclosed⟩

/-- No head of an attribute holds an opening brace. -/
theorem AttributeHead.not_mem_brace {owner : Spelling} {head : AttributeHead}
    (fits : head.toQualifiedName.Fits owner) : '{' ∉ head.spelled owner ++ filtersOpening := by
  intro member
  rcases List.mem_append.mp member with inside | opening
  · rcases AttributeHead.mem_spelled_iff.mp inside with sign | name | suffix
    · cases sign
    · cases fits.isNameCharacter name
    · exact absurd (AttributeHead.mem_suffix suffix) (by decide)
  · exact absurd opening (by decide)

namespace TagReference

/-- The signs that tag references start with. -/
def isTagMark (c : Char) : Bool :=
  c == '#' || c == '~'

/-- The head of an attribute holds no character at which a tag starts. -/
theorem isTagMark_of_mem_head {head : AttributeHead} {owner : Spelling}
    (fits : head.toQualifiedName.Fits owner) {c : Char}
    (member : c ∈ head.spelled owner ++ filtersOpening) : isTagMark c = false := by
  by_contra mark
  simp only [isTagMark, Bool.not_eq_false, Bool.or_eq_true, beq_iff_eq] at mark
  rcases List.mem_append.mp member with inside | opening
  · rcases AttributeHead.mem_spelled_iff.mp inside with sign | name | suffix
    · rcases mark with rfl | rfl <;> cases sign
    · rcases mark with rfl | rfl <;> cases fits.isNameCharacter name
    · rcases mark with rfl | rfl <;> exact absurd (AttributeHead.mem_suffix suffix) (by decide)
  · rcases mark with rfl | rfl <;> exact absurd opening (by decide)

end TagReference

namespace Piece

variable {Record : Type} {pieces front back : List (Piece Record)} {owner : Spelling}
  {kind : Placeholder} {next : Nat} {more : Text}

/-- None of the references among some pieces stands where an attribute owns the place. -/
def Free (pieces : List (Piece Record)) : Prop :=
  ∀ earlier spelling record later, pieces = earlier ++ reference spelling record :: later →
    ∀ owner, ¬ OwnedBy owner (sources earlier)

/-- Some pieces end in the head of an attribute and open tag filters, all of them plain
characters. -/
def Owned (owner : Spelling) (pieces : List (Piece Record)) : Prop :=
  ∃ (before : List (Piece Record)) (head : AttributeHead) (inside : Text),
    pieces = before ++ (head.spelled owner ++ (filtersOpening ++ inside)).map .plain ∧
      head.toQualifiedName.Fits owner ∧ ')' ∉ inside

theorem free_nil : Free ([] : List (Piece Record)) := by
  intro earlier spelling record later split
  simp at split

/-- The first of some free pieces are free by themselves. -/
theorem Free.of_append (free : Free (front ++ back)) : Free front := by
  rintro earlier spelling record later rfl
  exact free earlier spelling record (later ++ back) (by simp)

/-- Free pieces stay free when plain characters follow. -/
theorem Free.append_plain (free : Free pieces) (text : Text) : Free (pieces ++ text.map plain) := by
  intro earlier spelling record later split
  have replaced : reference spelling record ∉ text.map plain := by simp
  rcases List.append_eq_append_iff.mp split with ⟨cut, rfl, ends⟩ | ⟨cut, rfl, ends⟩
  · exact (replaced (ends ▸ by simp)).elim
  · cases cut with
    | nil =>
        change reference spelling record :: later = text.map plain at ends
        exact (replaced (ends ▸ List.mem_cons_self)).elim
    | cons first cut =>
        cases ends
        exact free earlier spelling record cut rfl

/-- Free pieces stay free when a reference follows that no attribute owns. -/
theorem Free.append_reference (free : Free pieces)
    (unowned : ∀ owner, ¬ OwnedBy owner (sources pieces)) (spelling : Text) (record : Record) :
    Free (pieces ++ [reference spelling record]) := by
  intro earlier other found later split
  rcases List.eq_nil_or_concat later with rfl | ⟨later, last, rfl⟩
  · obtain ⟨rfl, _⟩ := List.append_inj' split rfl
    exact unowned
  · rw [List.concat_eq_append, ← List.cons_append, ← List.append_assoc] at split
    obtain ⟨rfl, _⟩ := List.append_inj' split rfl
    exact free earlier other found later rfl

/-- A place stays owned behind plain characters that do not close the tag filters. -/
theorem Owned.append_plain (owned : Owned owner pieces) (unclosed : ')' ∉ more) :
    Owned owner (pieces ++ more.map plain) := by
  obtain ⟨before, head, inside, rfl, fits, free⟩ := owned
  refine ⟨before, head, inside ++ more, ?_, fits, ?_⟩
  · simp only [List.map_append, List.append_assoc]
  · rw [List.mem_append, not_or]
    exact ⟨free, unclosed⟩

/-- Pieces that end in tag filters were cut from a text that does. -/
theorem Owned.ownedBy_sources (owned : Owned owner pieces) : OwnedBy owner (sources pieces) := by
  obtain ⟨before, head, inside, rfl, fits, unclosed⟩ := owned
  exact ⟨sources before, head, inside, by rw [sources_append, sources_plain], fits, unclosed⟩

/-- A pass that does not touch tag filters leaves what they own to them. -/
theorem Owned.ownedBy_numbered (owned : Owned owner pieces) (kind : Placeholder) (next : Nat) :
    OwnedBy owner (numbered kind next pieces) := by
  obtain ⟨before, head, inside, rfl, fits, unclosed⟩ := owned
  exact ⟨numbered kind next before, head, inside, by rw [numbered_append, numbered_map_plain],
    fits, unclosed⟩

/-- No reference comes behind the head of an attribute and its opening before a parenthesis. -/
theorem Free.spellings_eq_nil {head : AttributeHead} (fits : head.toQualifiedName.Fits owner)
    (free : Free (front ++ ((head.spelled owner ++ filtersOpening).map plain ++ back)))
    (unclosed : ∀ (early : Text) (spelling : Text) (record : Record) (late : List (Piece Record)),
      back = early.map plain ++ reference spelling record :: late → ')' ∉ early) :
    spellings back = [] := by
  by_contra filled
  obtain ⟨early, spelling, record, late, rfl⟩ := exists_first_reference filled
  refine free (front ++ ((head.spelled owner ++ filtersOpening).map plain ++ early.map plain))
    spelling record late (by simp only [List.append_assoc]) owner
    ⟨sources front, head, early, ?_, fits, unclosed early spelling record late rfl⟩
  rw [sources_append, sources_map_plain_append, sources_plain, List.append_assoc]

/-- Behind the head of an attribute all is owned up to the first parenthesis, when no reference was
replaced there. -/
theorem owned_of_spellings {head : AttributeHead} (fits : head.toQualifiedName.Fits owner)
    (unreplaced : spellings back = []) (unclosed : ')' ∉ sources back) :
    Owned owner (front ++ ((head.spelled owner ++ filtersOpening).map plain ++ back)) := by
  obtain ⟨inside, rfl⟩ : ∃ inside : Text, back = inside.map plain :=
    ⟨_, eq_map_plain_of_spellings unreplaced⟩
  rw [sources_plain] at unclosed
  exact ⟨front, head, inside, by simp only [List.map_append, List.append_assoc], fits, unclosed⟩

/-- **An attribute that owns the end of the written text was read as plain characters**, together
with its tag filters: a reference in the filters would stand where the attribute owns the place. -/
theorem Free.owned_of_numbered (free : Free pieces)
    (owned : OwnedBy owner (numbered kind next pieces)) : Owned owner pieces := by
  obtain ⟨before, head, inside, whole, fits, unclosed⟩ := owned
  have filled : head.spelled owner ++ filtersOpening ≠ [] := List.cons_ne_nil _ _
  rw [← List.append_assoc (head.spelled owner)] at whole
  obtain ⟨front, back, rfl, _, written⟩ :=
    split_numbered_literal filled rfl (AttributeHead.not_mem_brace fits) whole
  have unreplaced : spellings back = [] := by
    refine free.spellings_eq_nil fits ?_
    rintro early spelling record late rfl closed
    rw [numbered_map_plain_append] at written
    exact unclosed (written ▸ List.mem_append_left _ closed)
  refine owned_of_spellings fits unreplaced ?_
  rw [eq_map_plain_of_spellings unreplaced, numbered_map_plain] at written
  rwa [written]

/-- An attribute that owns a place in the clause was read as plain characters when no reference
holds the sign of attributes. -/
theorem Free.owned_of_sources (free : Free pieces)
    (marked : ∀ spelling ∈ spellings pieces,
      (∃ c rest, spelling = c :: rest ∧ TagReference.isTagMark c = true) ∧ '@' ∉ spelling)
    (owned : OwnedBy owner (sources pieces)) : Owned owner pieces := by
  obtain ⟨before, head, inside, whole, fits, unclosed⟩ := owned
  rcases split_sources whole with ⟨first, second, rfl, _, opened⟩ |
    ⟨first, begun, ended, record, last, rfl, _, filled, _, opened⟩
  · rw [← List.append_assoc] at opened
    obtain ⟨back, rfl, within⟩ := eq_plain_of_sources
      (fun spelling member => (marked spelling (by simp [member])).1)
      (fun c member => TagReference.isTagMark_of_mem_head fits member) opened
    have unreplaced : spellings back = [] := by
      refine free.spellings_eq_nil fits ?_
      rintro early spelling record late rfl closed
      rw [sources_map_plain_append] at within
      exact unclosed (within ▸ List.mem_append_left _ closed)
    exact owned_of_spellings fits unreplaced (within ▸ unclosed)
  · -- A reference would reach over the sign of the attribute.
    obtain ⟨c, ended, rfl⟩ := List.exists_cons_of_ne_nil filled
    have sign : c = '@' := by
      rw [AttributeHead.spelled, List.cons_append, List.cons_append, List.cons.injEq] at opened
      exact opened.1.symm
    refine ((marked (begun ++ c :: ended) (by simp)).2 ?_).elim
    rw [sign]
    simp

/-- An attribute that owns the end of the written text owned that place in the clause. -/
theorem Free.ownedBy_sources (free : Free pieces)
    (owned : OwnedBy owner (numbered kind next pieces)) : OwnedBy owner (sources pieces) :=
  (free.owned_of_numbered owned).ownedBy_sources

end Piece

end NoteQuery
