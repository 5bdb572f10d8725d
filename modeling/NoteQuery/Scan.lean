import NoteQuery.Placeholder
import NoteQuery.Query.Error

/-! # Scanning a clause

A scan walks along a clause and cuts it into pieces: plain characters and references. At every
place a step decides what stands there, and whatever it recognises takes at least one character, so
the walk ends. The cut loses nothing (`Scan.source_ofSteps`). Numbering the pieces replaces the
references by placeholders, and neither the cut nor the records depend on the numbers.
-/

namespace NoteQuery

/-- A piece of a clause: a plain character, or the text of a reference and its record. -/
inductive Piece (Record : Type) where
  | plain (character : Char)
  | reference (spelling : Text) (record : Record)
  deriving DecidableEq, Repr

namespace Piece

variable {Record : Type}

/-- The text a piece was cut from. -/
def source : Piece Record → Text
  | plain character => [character]
  | reference spelling _ => spelling

/-- The record of a reference. -/
def record? : Piece Record → Option Record
  | plain _ => none
  | reference _ record => some record

/-- The text that some pieces were cut from. -/
def sources (pieces : List (Piece Record)) : Text :=
  pieces.flatMap source

/-- The records of the references among some pieces, in order. -/
def records (pieces : List (Piece Record)) : List Record :=
  pieces.filterMap record?

/-- The text of some pieces with a placeholder for each reference, counted from `next`. -/
def numbered (kind : Placeholder) : (next : Nat) → List (Piece Record) → Text
  | _, [] => []
  | next, plain character :: rest => character :: numbered kind next rest
  | next, reference _ _ :: rest => kind.numbered next ++ numbered kind (next + 1) rest

/-- Joined pieces were cut from the joined texts. -/
theorem sources_append (first second : List (Piece Record)) :
    sources (first ++ second) = sources first ++ sources second :=
  List.flatMap_append

/-- Plain characters were cut from themselves. -/
theorem sources_plain (text : Text) :
    sources (text.map fun c => (plain c : Piece Record)) = text := by
  simp [sources, List.flatMap_map, source]

/-- A reference was cut from its spelling. -/
theorem sources_reference (spelling : Text) (record : Record) :
    sources [reference spelling record] = spelling := by
  simp [sources, source]

end Piece

/-- What a step finds at the start of a text that is not empty. -/
inductive Step (Record : Type) (text : Text) where
  /-- No reference starts here. -/
  | plain
  /-- The text up to `behind` belongs to another reference and is kept as it is. -/
  | keep (behind : Text) (rest : behind.IsRestOf text)
  /-- A reference reaches up to `behind`. -/
  | reference (record : Record) (behind : Text) (rest : behind.IsRestOf text)
  /-- A reference starts here and cannot be read. -/
  | fail (error : QueryError)

/-- The pieces of a clause up to its end or up to the reference that cannot be read. -/
structure Scan (Record : Type) where
  pieces : List (Piece Record)
  failure : Option QueryError

namespace Scan

variable {Record : Type}

/-- The scan with further pieces at its start. -/
def prepend (pieces : List (Piece Record)) (scan : Scan Record) : Scan Record :=
  { scan with pieces := pieces ++ scan.pieces }

/-- Walks along a text and asks `step` at every place that is not part of an earlier piece. -/
def ofSteps (step : (text : Text) → Step Record text) : Text → Scan Record
  | [] => ⟨[], none⟩
  | c :: tail =>
      match step (c :: tail) with
      | .plain => (ofSteps step tail).prepend [.plain c]
      | .keep behind _ =>
          (ofSteps step behind).prepend ((Text.upTo (c :: tail) behind).map .plain)
      | .reference record behind _ =>
          (ofSteps step behind).prepend [.reference (Text.upTo (c :: tail) behind) record]
      | .fail error => ⟨[], some error⟩
termination_by text => text.length
decreasing_by
  · exact Nat.lt_succ_self _
  all_goals
    rename_i rest
    exact rest.2

/-- The pieces of a scan spell the text up to the place where the scan ended, which is the end
unless it failed. -/
theorem source_ofSteps (step : (text : Text) → Step Record text) (text : Text) :
    ∃ unread, text = Piece.sources (ofSteps step text).pieces ++ unread ∧
      ((ofSteps step text).failure = none → unread = []) := by
  fun_induction ofSteps step text with
  | case1 => exact ⟨[], by simp [Piece.sources]⟩
  | case2 c tail found ih =>
      obtain ⟨unread, same, ended⟩ := ih
      exact ⟨unread, by simpa [prepend, Piece.sources, Piece.source] using same, ended⟩
  | case3 c tail behind rest found ih =>
      obtain ⟨unread, same, ended⟩ := ih
      refine ⟨unread, ?_, ended⟩
      rw [prepend, Piece.sources_append, Piece.sources_plain, List.append_assoc, ← same,
        Text.upTo_append rest.1]
  | case4 c tail record behind rest found ih =>
      obtain ⟨unread, same, ended⟩ := ih
      refine ⟨unread, ?_, ended⟩
      rw [prepend, Piece.sources_append, Piece.sources_reference, List.append_assoc, ← same,
        Text.upTo_append rest.1]
  | case5 c tail error found => exact ⟨c :: tail, by simp [Piece.sources]⟩

end Scan

/-- What is left of a clause and of a list of records when references were moved from the one to
the other: the rewritten clause or the error that ended the work, and the records known by then. -/
structure Extraction (Record : Type) where
  clause : Except QueryError Text
  records : List Record

namespace Extraction

variable {Record : Type}

instance [DecidableEq Record] : DecidableEq (Extraction Record)
  | ⟨.ok clause, records⟩, ⟨.ok other, others⟩ =>
      decidable_of_iff (clause = other ∧ records = others) (by simp)
  | ⟨.error error, records⟩, ⟨.error other, others⟩ =>
      decidable_of_iff (error = other ∧ records = others) (by simp)
  | ⟨.ok _, _⟩, ⟨.error _, _⟩ | ⟨.error _, _⟩, ⟨.ok _, _⟩ => .isFalse (by simp)

/-- Moves the references of a scan behind the records known so far. -/
def ofScan (kind : Placeholder) (known : List Record) (scan : Scan Record) : Extraction Record where
  clause :=
    match scan.failure with
    | some error => .error error
    | none => .ok (Piece.numbered kind known.length scan.pieces)
  records := known ++ Piece.records scan.pieces

/-- Goes on with the rewritten clause and the records, unless an error ended the work. -/
def andThen (first : Extraction Record) (next : Text → List Record → Extraction Record) :
    Extraction Record :=
  match first.clause with
  | .error _ => first
  | .ok clause => next clause first.records

end Extraction

end NoteQuery
