import NoteQuery.Proofs.Placeholder.Alike
import NoteQuery.Proofs.Scan.Reads

/-! # Scans of texts that are alike

When the steps of two scans find alike things at corresponding places, the scans either fail with
the same error, positions apart, or write texts that are alike (`Scan.written_alike`), whatever
numbers the new placeholders have.
-/

namespace NoteQuery

/-- Two errors are the same, positions and parts apart. -/
def QueryError.Alike (first second : QueryError) : Prop :=
  first.unclosed = second.unclosed ∧ first.name = second.name

/-- Two outcomes are texts that are alike or the same error, positions and parts apart. -/
inductive OutcomeAlike : Except QueryError Text → Except QueryError Text → Prop where
  | ok {first second : Text} (alike : first.Alike second) : OutcomeAlike (.ok first) (.ok second)
  | error {first second : QueryError} (alike : first.Alike second) :
      OutcomeAlike (.error first) (.error second)

/-- Alike texts may be put in front of alike outcomes. -/
theorem OutcomeAlike.prepend {first second : Except QueryError Text}
    (alike : OutcomeAlike first second) {front front' : Text} (before : front.Alike front') :
    OutcomeAlike (first.map (front ++ ·)) (second.map (front' ++ ·)) := by
  cases alike with
  | ok alike => exact .ok (before.append alike)
  | error alike => exact .error alike

variable {Record : Type}

/-- What steps find at two places is alike: the same, and references that reach equally far. -/
inductive FoundAlike (text text' : Text) : Found Record → Found Record → Prop where
  | plain : FoundAlike text text' .plain .plain
  | keep {kept kept' behind behind' : Text} (whole : text = kept ++ behind)
      (whole' : text' = kept' ++ behind') (front : kept.Alike kept') (rest : behind.Alike behind') :
      FoundAlike text text' (.keep behind) (.keep behind')
  | reference {spelled spelled' behind behind' : Text} {record record' : Record}
      (whole : text = spelled ++ behind) (whole' : text' = spelled' ++ behind')
      (front : spelled.Alike spelled') (rest : behind.Alike behind') :
      FoundAlike text text' (.reference record behind) (.reference record' behind')
  | fail {error error' : QueryError} (alike : error.Alike error') :
      FoundAlike text text' (.fail error) (.fail error')

/-- No mark is a character of placeholders. -/
theorem Placeholder.isMark_of_isInner {c : Char} (inner : isInner c = true) : isMark c = false := by
  by_contra marked
  rw [Bool.not_eq_false, isMark, Bool.or_eq_true, Bool.or_eq_true, beq_iff_eq, beq_iff_eq,
    beq_iff_eq] at marked
  rcases marked with (rfl | rfl) | rfl <;> cases inner

/-- No reference starts inside a placeholder. -/
theorem Placeholder.isMark_of_mem_numbered {kind : Placeholder} {number : Nat} {c : Char}
    (member : c ∈ kind.numbered number) : isMark c = false := by
  rcases List.mem_cons.mp member with rfl | inner
  · rfl
  · exact isMark_of_isInner (isInner_of_mem_tail inner)

namespace Step

variable {text behind : Text} {step : Step Record text}

/-- What is kept takes something. -/
theorem isRestOf_of_keep (found : step.found = .keep behind) : behind.IsRestOf text := by
  cases step with
  | keep behind rest =>
      cases found
      exact rest
  | _ => cases found

/-- A reference takes something. -/
theorem isRestOf_of_reference {record : Record} (found : step.found = .reference record behind) :
    behind.IsRestOf text := by
  cases step with
  | reference record behind rest =>
      cases found
      exact rest
  | _ => cases found

end Step

namespace Scan

/-- The text that is written for a scan, or the error that ended it. -/
def written (kind : Placeholder) (next : Nat) (scan : Scan Record) : Except QueryError Text :=
  match scan.failure with
  | some error => .error error
  | none => .ok (Piece.numbered kind next scan.pieces)

theorem written_prepend_plain (kind : Placeholder) (next : Nat) (front : Text)
    (scan : Scan Record) :
    (scan.prepend (front.map .plain)).written kind next =
      (scan.written kind next).map (front ++ ·) := by
  obtain ⟨pieces, failure⟩ := scan
  cases failure with
  | some error => rfl
  | none => simp only [written, prepend, Piece.numbered_map_plain_append, Except.map]

theorem written_prepend_reference (kind : Placeholder) (next : Nat) (spelled : Text)
    (record : Record) (scan : Scan Record) :
    (scan.prepend [.reference spelled record]).written kind next =
      (scan.written kind (next + 1)).map (kind.numbered next ++ ·) := by
  obtain ⟨pieces, failure⟩ := scan
  cases failure <;> rfl

variable {step step' : (text : Text) → Step Record text}

/-- Characters at which no step finds anything are scanned as plain characters. -/
theorem ofSteps_append (front rest : Text)
    (plain : ∀ c ∈ front, ∀ rest, (step (c :: rest)).found = .plain) :
    ofSteps step (front ++ rest) = (ofSteps step rest).prepend (front.map .plain) := by
  induction front with
  | nil => rfl
  | cons c front ih =>
      have later := ih fun d member => plain d (List.mem_cons_of_mem _ member)
      have here := Reads.plain (plain c List.mem_cons_self (front ++ rest))
        (reads_ofSteps step (front ++ rest))
      rw [List.cons_append, ← here.eq_ofSteps, later]
      rfl

/-- A text in which no reference starts is scanned to plain characters. -/
theorem ofSteps_of_plain (text : Text)
    (plain : ∀ c ∈ text, ∀ rest, (step (c :: rest)).found = .plain) :
    ofSteps step text = ⟨text.map .plain, none⟩ := by
  have whole := ofSteps_append text [] plain
  rwa [List.append_nil, ofSteps, prepend, List.append_nil] at whole

/-- A scan goes on behind a stretch that is kept. -/
theorem ofSteps_of_keep {text kept behind : Text} (whole : text = kept ++ behind)
    (found : (step text).found = .keep behind) :
    ofSteps step text = (ofSteps step behind).prepend (kept.map .plain) := by
  have filled : kept ≠ [] := by
    intro empty
    have shorter := (Step.isRestOf_of_keep found).2
    rw [whole, empty, List.nil_append] at shorter
    exact Nat.lt_irrefl _ shorter
  subst whole
  exact (Reads.keep filled found (reads_ofSteps step behind)).eq_ofSteps.symm

/-- A scan goes on behind a reference. -/
theorem ofSteps_of_reference {text spelled behind : Text} {record : Record}
    (whole : text = spelled ++ behind) (found : (step text).found = .reference record behind) :
    ofSteps step text = (ofSteps step behind).prepend [.reference spelled record] := by
  have filled : spelled ≠ [] := by
    intro empty
    have shorter := (Step.isRestOf_of_reference found).2
    rw [whole, empty, List.nil_append] at shorter
    exact Nat.lt_irrefl _ shorter
  subst whole
  exact (Reads.reference filled found (reads_ofSteps step behind)).eq_ofSteps.symm

variable {kind : Placeholder} {clause clause' front front' text text' : Text}

/-- **Scans of alike texts are alike**, when their steps are so at corresponding places and find
nothing where no mark stands. -/
theorem written_alike
    (plain : ∀ c rest, isMark c = false → (step (c :: rest)).found = .plain)
    (plain' : ∀ c rest, isMark c = false → (step' (c :: rest)).found = .plain)
    (agrees : ∀ front front' text text', clause = front ++ text → clause' = front' ++ text' →
      front.Alike front' → text.Alike text' →
        FoundAlike text text' (step text).found (step' text').found)
    (whole : clause = front ++ text) (whole' : clause' = front' ++ text')
    (before : front.Alike front') (alike : text.Alike text') (next next' : Nat) :
    OutcomeAlike ((ofSteps step text).written kind next)
      ((ofSteps step' text').written kind next') := by
  -- A step may go beyond the next placeholder, so the induction is on the length that is left.
  induction size : text.length using Nat.strong_induction_on
    generalizing front front' text text' next next' with
  | _ size ih =>
      have further {kept kept' behind behind' : Text} (cut : text = kept ++ behind)
          (cut' : text' = kept' ++ behind') (shorter : behind.length < text.length)
          (between : kept.Alike kept') (rest : behind.Alike behind') (next next' : Nat) :
          OutcomeAlike ((ofSteps step behind).written kind next)
            ((ofSteps step' behind').written kind next') :=
        ih behind.length (size ▸ shorter) (by rw [whole, cut, List.append_assoc])
          (by rw [whole', cut', List.append_assoc]) (before.append between) rest next next' rfl
      have found := agrees front front' text text' whole whole' before alike
      cases alike with
      | nil =>
          rw [ofSteps, ofSteps]
          exact .ok .nil
      | placeholder other number number' rest =>
          rw [ofSteps_append _ _ fun c member rest =>
              plain c rest (Placeholder.isMark_of_mem_numbered member),
            ofSteps_append _ _ fun c member rest =>
              plain' c rest (Placeholder.isMark_of_mem_numbered member),
            written_prepend_plain, written_prepend_plain]
          have between : (other.numbered number).Alike (other.numbered number') := by
            have placeholders := Text.Alike.placeholder other number number' .nil
            rwa [List.append_nil, List.append_nil] at placeholders
          refine (further rfl rfl ?_ between rest next next').prepend between
          simp only [Placeholder.numbered, List.length_append, List.length_cons]
          omega
      | @cons c tail tail' rest =>
          generalize here : (step (c :: tail)).found = finding at found
          generalize here' : (step' (c :: tail')).found = finding' at found
          cases found with
          | plain =>
              rw [← (Reads.plain here (reads_ofSteps step tail)).eq_ofSteps,
                ← (Reads.plain here' (reads_ofSteps step' tail')).eq_ofSteps]
              have between := Text.Alike.refl [c]
              have cut : c :: tail = [c] ++ tail := rfl
              have cut' : c :: tail' = [c] ++ tail' := rfl
              have written := (further cut cut' (by simp) between rest next next').prepend between
              rwa [← written_prepend_plain, ← written_prepend_plain] at written
          | @keep kept kept' behind behind' cut cut' between rest =>
              rw [ofSteps_of_keep cut here, ofSteps_of_keep cut' here', written_prepend_plain,
                written_prepend_plain]
              exact (further cut cut' (Step.isRestOf_of_keep here).2 between rest next
                next').prepend between
          | @reference spelled spelled' behind behind' record record' cut cut' between rest =>
              rw [ofSteps_of_reference cut here, ofSteps_of_reference cut' here',
                written_prepend_reference, written_prepend_reference]
              have placeholders := Text.Alike.placeholder kind next next' .nil
              rw [List.append_nil, List.append_nil] at placeholders
              exact (further cut cut' (Step.isRestOf_of_reference here).2 between rest (next + 1)
                (next' + 1)).prepend placeholders
          | fail alike =>
              rw [← (Reads.fail (List.cons_ne_nil c tail) here).eq_ofSteps,
                ← (Reads.fail (List.cons_ne_nil c tail') here').eq_ofSteps]
              exact .error alike

end Scan

end NoteQuery
