import NoteQuery.Proofs.Scan.Pieces

/-! # Scans as a relation

A scan is determined by what its steps find. The relation `Scan.Reads` has one rule for each
finding; the scan of a text is the only one related to it (`Scan.reads_ofSteps`,
`Scan.Reads.eq_ofSteps`), so that facts about scans are proved by induction on the rules.
-/

namespace NoteQuery

variable {Record : Type}

/-- What a step finds, without the evidence that it takes something. -/
inductive Found (Record : Type) where
  | plain
  | keep (behind : Text)
  | reference (record : Record) (behind : Text)
  | fail (error : QueryError)

/-- What a step finds. -/
def Step.found {text : Text} : Step Record text → Found Record
  | .plain => .plain
  | .keep behind _ => .keep behind
  | .reference record behind _ => .reference record behind
  | .fail error => .fail error

namespace Scan

/-- How a text is read step by step. -/
inductive Reads (step : (text : Text) → Step Record text) : Text → Scan Record → Prop where
  | nil : Reads step [] ⟨[], none⟩
  | plain {c : Char} {rest : Text} {scan : Scan Record} (found : (step (c :: rest)).found = .plain)
      (tail : Reads step rest scan) : Reads step (c :: rest) (scan.prepend [.plain c])
  | keep {kept behind : Text} {scan : Scan Record} (filled : kept ≠ [])
      (found : (step (kept ++ behind)).found = .keep behind) (tail : Reads step behind scan) :
      Reads step (kept ++ behind) (scan.prepend (kept.map .plain))
  | reference {spelling behind : Text} {record : Record} {scan : Scan Record}
      (filled : spelling ≠ [])
      (found : (step (spelling ++ behind)).found = .reference record behind)
      (tail : Reads step behind scan) :
      Reads step (spelling ++ behind) (scan.prepend [.reference spelling record])
  | fail {text : Text} {error : QueryError} (filled : text ≠ [])
      (found : (step text).found = .fail error) : Reads step text ⟨[], some error⟩

variable {step : (text : Text) → Step Record text}

/-- What stands in front of the rest of a text that was taken from is not empty. -/
theorem upTo_ne_nil {text behind : Text} (rest : behind.IsRestOf text) :
    text.upTo behind ≠ [] := by
  intro empty
  have whole := Text.upTo_append rest.1
  rw [empty, List.nil_append] at whole
  have shorter := rest.2
  rw [whole] at shorter
  exact Nat.lt_irrefl _ shorter

theorem prepend_prepend (scan : Scan Record) (front back : List (Piece Record)) :
    (scan.prepend back).prepend front = scan.prepend (front ++ back) := by
  simp [prepend]

theorem upTo_append_right (front rest : Text) : Text.upTo (front ++ rest) rest = front := by
  simp [Text.upTo]

/-- The scan of a text reads it. -/
theorem reads_ofSteps (step : (text : Text) → Step Record text) (text : Text) :
    Reads step text (ofSteps step text) := by
  fun_induction ofSteps step text with
  | case1 => exact .nil
  | case2 c tail found ih => exact .plain (by rw [found]; rfl) ih
  | case3 c tail behind rest found ih =>
      have whole := Text.upTo_append rest.1
      have reads := Reads.keep (upTo_ne_nil rest) (by rw [whole, found]; rfl) ih
      rwa [whole] at reads
  | case4 c tail record behind rest found ih =>
      have whole := Text.upTo_append rest.1
      have reads := Reads.reference (upTo_ne_nil rest) (by rw [whole, found]; rfl) ih
      rwa [whole] at reads
  | case5 c tail error found => exact .fail (List.cons_ne_nil c tail) (by rw [found]; rfl)

/-- A text is read in one way only. -/
theorem Reads.eq_ofSteps {text : Text} {scan : Scan Record} (reads : Reads step text scan) :
    scan = ofSteps step text := by
  induction reads with
  | nil => rw [ofSteps]
  | @plain c rest scan found _ ih =>
      rw [ofSteps]
      cases stepped : step (c :: rest) with
      | plain => rw [← ih]
      | _ => rw [stepped] at found; cases found
  | @keep kept behind scan filled found _ ih =>
      obtain ⟨c, kept, rfl⟩ := List.exists_cons_of_ne_nil filled
      rw [List.cons_append] at found ⊢
      rw [ofSteps]
      cases stepped : step (c :: (kept ++ behind)) with
      | keep other rest =>
          rw [stepped] at found
          cases found
          simp only [← List.cons_append, upTo_append_right]
          rw [ih]
      | _ => rw [stepped] at found; cases found
  | @reference spelling behind record scan filled found _ ih =>
      obtain ⟨c, spelling, rfl⟩ := List.exists_cons_of_ne_nil filled
      rw [List.cons_append] at found ⊢
      rw [ofSteps]
      cases stepped : step (c :: (spelling ++ behind)) with
      | reference other behind rest =>
          rw [stepped] at found
          cases found
          simp only [← List.cons_append, upTo_append_right]
          rw [ih]
      | _ => rw [stepped] at found; cases found
  | @fail text error filled found =>
      obtain ⟨c, rest, rfl⟩ := List.exists_cons_of_ne_nil filled
      rw [ofSteps]
      cases stepped : step (c :: rest) with
      | fail other => rw [stepped] at found; cases found; rfl
      | _ => rw [stepped] at found; cases found

/-- The references of a scan were found where their spellings stand. -/
theorem Reads.reference_found {text : Text} {scan : Scan Record} (reads : Reads step text scan)
    {spelling : Text} (member : spelling ∈ Piece.spellings scan.pieces) :
    ∃ record behind, (step (spelling ++ behind)).found = .reference record behind := by
  induction reads with
  | nil => simp [Piece.spellings] at member
  | plain _ _ ih => exact ih (by simpa [prepend] using member)
  | keep _ _ _ ih => exact ih (by simpa [prepend] using member)
  | @reference _ behind record _ _ found _ ih =>
      simp only [prepend, List.cons_append, List.nil_append, Piece.spellings_cons_reference,
        List.mem_cons] at member
      rcases member with rfl | member
      · exact ⟨record, behind, found⟩
      · exact ih member
  | fail => simp [Piece.spellings] at member

/-- A scan that did not fail spells the text. -/
theorem Reads.sources_eq {text : Text} {scan : Scan Record} (reads : Reads step text scan)
    (unfailed : scan.failure = none) : Piece.sources scan.pieces = text := by
  obtain ⟨unread, whole, ended⟩ := source_ofSteps step text
  rw [← reads.eq_ofSteps] at whole ended
  rw [ended unfailed, List.append_nil] at whole
  exact whole.symm

/-- In a scan that did not fail, a reference was found in front of what the pieces behind it
spell. -/
theorem Reads.found_reference {text : Text} {scan : Scan Record} (reads : Reads step text scan)
    (unfailed : scan.failure = none) {front back : List (Piece Record)} {spelling : Text}
    {record : Record} (split : scan.pieces = front ++ .reference spelling record :: back) :
    (step (spelling ++ Piece.sources back)).found = .reference record (Piece.sources back) := by
  induction reads generalizing front with
  | nil => simp at split
  | plain _ _ ih =>
      cases front with
      | nil => simp [prepend] at split
      | cons piece front =>
          simp only [prepend, List.cons_append, List.nil_append, List.cons.injEq] at split
          exact ih unfailed split.2
  | keep _ _ _ ih =>
      rcases Piece.split_map_plain_append split with ⟨rest, _, later⟩ | ⟨_, _, _, _, _, plain, _⟩
      · exact ih unfailed later
      · cases plain
  | reference _ found tail ih =>
      cases front with
      | nil =>
          simp only [prepend, List.cons_append, List.nil_append, List.cons.injEq,
            Piece.reference.injEq] at split
          obtain ⟨⟨rfl, rfl⟩, rfl⟩ := split
          rwa [tail.sources_eq unfailed]
      | cons piece front =>
          simp only [prepend, List.cons_append, List.nil_append, List.cons.injEq] at split
          exact ih unfailed split.2
  | fail => simp at split

/-- In a scan that did not fail, a plain character was found to be plain, or it was kept together
with the plain characters in front of it. -/
theorem Reads.found_plain {text : Text} {scan : Scan Record} (reads : Reads step text scan)
    (unfailed : scan.failure = none) {front back : List (Piece Record)} {c : Char}
    (split : scan.pieces = front ++ .plain c :: back) :
    (step (c :: Piece.sources back)).found = .plain ∨
      ∃ earlier kept behind, front = earlier ++ kept.map .plain ∧
        (step (kept ++ c :: Piece.sources back)).found = .keep behind ∧
        behind <:+ Piece.sources back := by
  induction reads generalizing front with
  | nil => simp at split
  | plain found tail ih =>
      cases front with
      | nil =>
          simp only [prepend, List.cons_append, List.nil_append, List.cons.injEq,
            Piece.plain.injEq] at split
          obtain ⟨rfl, rfl⟩ := split
          left
          rwa [tail.sources_eq unfailed]
      | cons piece front =>
          simp only [prepend, List.cons_append, List.nil_append, List.cons.injEq] at split
          rcases ih unfailed split.2 with plain | ⟨earlier, kept, behind, rfl, found, ends⟩
          · exact .inl plain
          · exact .inr ⟨piece :: earlier, kept, behind, rfl, found, ends⟩
  | @keep kept behind _ _ found tail ih =>
      rcases Piece.split_map_plain_append split with
        ⟨rest, rfl, later⟩ | ⟨start, _, ends, rfl, rfl, same, rfl⟩
      · rcases ih unfailed later with plain | ⟨earlier, within, behind, rfl, found, ends⟩
        · exact .inl plain
        · exact .inr ⟨kept.map .plain ++ earlier, within, behind, by rw [List.append_assoc], found,
            ends⟩
      · -- The character is one of those that were kept here.
        cases same
        refine .inr ⟨[], start, behind, rfl, ?_, ?_⟩
        · rw [Piece.sources_map_plain_append, tail.sources_eq unfailed]
          rwa [List.append_assoc, List.cons_append] at found
        · rw [Piece.sources_map_plain_append, tail.sources_eq unfailed]
          exact List.suffix_append ends behind
  | reference _ _ _ ih =>
      cases front with
      | nil => simp [prepend] at split
      | cons piece front =>
          simp only [prepend, List.cons_append, List.nil_append, List.cons.injEq] at split
          rcases ih unfailed split.2 with plain | ⟨earlier, kept, behind, rfl, found, ends⟩
          · exact .inl plain
          · exact .inr ⟨piece :: earlier, kept, behind, rfl, found, ends⟩
  | fail => simp at split

end Scan

end NoteQuery
