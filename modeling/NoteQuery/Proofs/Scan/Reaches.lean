import NoteQuery.Proofs.Scan.Alike

/-! # The places that a scan comes to

A scan starts at the start of a text and goes on where each step leaves off. It fails exactly when a
step fails at a place that it comes to (`Scan.failure_eq_some_iff`), and its records are those of
the references that are found at such places (`Scan.mem_records_iff`).
-/

namespace NoteQuery

variable {Record : Type}

/-- Where a scan goes on when something was found at the start of a text. -/
def Found.next (text : Text) : Found Record → Option Text
  | .plain => some text.tail
  | .keep behind => some behind
  | .reference _ behind => some behind
  | .fail _ => none

namespace Scan

/-- The places that a scan of a text comes to, each given by the text that is left there. -/
inductive Reaches (step : (text : Text) → Step Record text) : Text → Text → Prop where
  | here (text : Text) : Reaches step text text
  | later {text behind place : Text} (filled : text ≠ [])
      (next : (step text).found.next text = some behind) (reaches : Reaches step behind place) :
      Reaches step text place

variable {step : (text : Text) → Step Record text} {text place behind : Text}
  {found : Found Record}

theorem suffix_of_next (next : (step text).found.next text = some behind) : behind <:+ text := by
  cases here : (step text).found with
  | plain =>
      rw [here, Found.next, Option.some.injEq] at next
      exact next ▸ List.tail_suffix text
  | keep other =>
      rw [here, Found.next, Option.some.injEq] at next
      exact (Step.isRestOf_of_keep (next ▸ here)).1
  | reference record other =>
      rw [here, Found.next, Option.some.injEq] at next
      exact (Step.isRestOf_of_reference (next ▸ here)).1
  | fail error =>
      rw [here] at next
      cases next

/-- What is left at a place is the end of the text. -/
theorem Reaches.suffix (reaches : Reaches step text place) : place <:+ text := by
  induction reaches with
  | here => exact List.suffix_refl _
  | later _ next _ ih => exact ih.trans (suffix_of_next next)

/-- Whether a scan of a text finds something at one of the places that it comes to. -/
def Meets (step : (text : Text) → Step Record text) (text : Text) (found : Found Record) : Prop :=
  ∃ place, place ≠ [] ∧ Reaches step text place ∧ (step place).found = found

theorem not_meets_nil : ¬ Meets step [] found := by
  rintro ⟨place, filled, reaches, _⟩
  exact filled (List.suffix_nil.mp reaches.suffix)

/-- A scan meets what its first step finds and what is met where it goes on. -/
theorem meets_iff_of_next (filled : text ≠ [])
    (next : (step text).found.next text = some behind) :
    Meets step text found ↔ (step text).found = found ∨ Meets step behind found := by
  constructor
  · rintro ⟨place, nonempty, reaches, met⟩
    cases reaches with
    | here => exact .inl met
    | later _ other reaches =>
        rw [next, Option.some.injEq] at other
        exact .inr ⟨place, nonempty, other ▸ reaches, met⟩
  · rintro (here | ⟨place, nonempty, reaches, met⟩)
    · exact ⟨text, filled, .here text, here⟩
    · exact ⟨place, nonempty, .later filled next reaches, met⟩

theorem meets_iff_of_fail {error : QueryError} (filled : text ≠ [])
    (here : (step text).found = .fail error) : Meets step text found ↔ found = .fail error := by
  constructor
  · rintro ⟨place, _, reaches, met⟩
    cases reaches with
    | here => exact met ▸ here
    | later _ next =>
        rw [here] at next
        cases next
  · rintro rfl
    exact ⟨text, filled, .here text, here⟩

/-- What a scan meets determines how it ends and which records it has. -/
theorem Reads.meets {scan : Scan Record} (reads : Reads step text scan) :
    (∀ error, scan.failure = some error ↔ Meets step text (.fail error)) ∧
      ∀ record, record ∈ Piece.records scan.pieces ↔
        ∃ behind, Meets step text (.reference record behind) := by
  induction reads with
  | nil => simp [not_meets_nil, Piece.records]
  | @plain c rest _ here _ ih =>
      have next : (step (c :: rest)).found.next (c :: rest) = some rest := by rw [here]; rfl
      simpa [meets_iff_of_next (List.cons_ne_nil c rest) next, here, prepend] using ih
  | @keep kept behind _ filled here _ ih =>
      have nonempty : kept ++ behind ≠ [] := by simp [filled]
      have next : (step (kept ++ behind)).found.next (kept ++ behind) = some behind := by
        rw [here]
        rfl
      simpa [meets_iff_of_next nonempty next, here, prepend, Piece.records, Piece.record?] using ih
  | @reference spelling behind record scan filled here _ ih =>
      have nonempty : spelling ++ behind ≠ [] := by simp [filled]
      have next : (step (spelling ++ behind)).found.next (spelling ++ behind) = some behind := by
        rw [here]
        rfl
      simp only [meets_iff_of_next nonempty next, here, prepend, List.cons_append, List.nil_append,
        Piece.records_cons_reference, List.mem_cons, Found.reference.injEq, reduceCtorEq, false_or,
        exists_or, ih.2]
      exact ⟨ih.1, by simp [eq_comm]⟩
  | fail filled here => simp [meets_iff_of_fail filled here, Piece.records, eq_comm]

/-- A scan fails exactly when it meets an error. -/
theorem failure_eq_some_iff {error : QueryError} :
    (ofSteps step text).failure = some error ↔ Meets step text (.fail error) :=
  (reads_ofSteps step text).meets.1 error

/-- The records of a scan are those of the references that it meets. -/
theorem mem_records_iff {record : Record} :
    record ∈ Piece.records (ofSteps step text).pieces ↔
      ∃ behind, Meets step text (.reference record behind) :=
  (reads_ofSteps step text).meets.2 record

end Scan

end NoteQuery
