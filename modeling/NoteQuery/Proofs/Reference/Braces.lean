import NoteQuery.Proofs.Query.Phases
import NoteQuery.Proofs.Reference.Alike
import NoteQuery.Proofs.Scan.Reaches
import NoteQuery.Proofs.Text.Delimiters

/-! # The brace that closes a data filter

The body of a data filter ends at the first brace that closes one more than its own braces open
(`DataFilter.close?_eq_some_iff`); there is none exactly when the text behind the opening brace is
matched (`DataFilter.close?_eq_none_iff`). So in a balanced text every data filter is closed, and
taking references away leaves it balanced (`TagReference.balanced_numbered`).
-/

namespace NoteQuery

open Delimiters (braces)

namespace DataFilter

variable {inner : Nat} {text body behind : Text}

/-- No brace closes an open one exactly when the text is matched. -/
theorem close?_eq_none_iff : close? inner text = none ↔ braces.Matched inner text := by
  induction text generalizing inner with
  | nil => simp [close?, Delimiters.matched_nil]
  | cons c rest ih =>
      rw [close?_cons]
      by_cases opened : c = '{'
      · rw [if_pos opened, Option.map_eq_none_iff, ih, opened]
        exact Delimiters.matched_opening_cons_iff.symm
      · rw [if_neg opened]
        by_cases closed : c = '}'
        · rw [if_pos closed, closed]
          cases inner with
          | zero => exact iff_of_false (by simp) Delimiters.not_matched_closing_cons
          | succ inner =>
              dsimp only
              rw [Option.map_eq_none_iff, ih]
              exact Delimiters.matched_closing_cons_iff.symm
        · rw [if_neg closed, Option.map_eq_none_iff, ih]
          exact (Delimiters.matched_cons_iff_of_ne opened closed).symm

/-- What stands in front of the brace that closes an open one closes all the others. -/
theorem closes_of_close? (closed : close? inner text = some (body, behind)) :
    braces.Closes inner body := by
  induction text generalizing inner body with
  | nil => cases closed
  | cons c rest ih =>
      rw [close?_cons] at closed
      by_cases opening : c = '{'
      · simp only [if_pos opening, Option.map_eq_some_iff, Prod.exists, Prod.mk.injEq] at closed
        obtain ⟨shorter, _, closed, rfl, rfl⟩ := closed
        exact opening ▸ Delimiters.closes_opening_cons_iff.mpr (ih closed)
      · rw [if_neg opening] at closed
        by_cases closing : c = '}'
        · rw [if_pos closing] at closed
          cases inner with
          | zero =>
              cases closed
              exact Delimiters.balanced_of_not_mem List.not_mem_nil List.not_mem_nil
          | succ inner =>
              simp only [Option.map_eq_some_iff, Prod.exists, Prod.mk.injEq] at closed
              obtain ⟨shorter, _, closed, rfl, rfl⟩ := closed
              exact closing ▸ Delimiters.closes_closing_cons_iff.mpr (ih closed)
        · simp only [if_neg closing, Option.map_eq_some_iff, Prod.exists, Prod.mk.injEq] at closed
          obtain ⟨shorter, _, closed, rfl, rfl⟩ := closed
          exact (Delimiters.closes_cons_iff_of_ne opening closing).mpr (ih closed)

theorem close?_of_closes (closes : braces.Closes inner body) (behind : Text) :
    close? inner (body ++ '}' :: behind) = some (body, behind) := by
  induction body generalizing inner with
  | nil =>
      have total : 0 = inner + 0 := closes.total
      obtain rfl : inner = 0 := by omega
      rfl
  | cons c body ih =>
      rw [List.cons_append, close?_cons]
      by_cases opening : c = '{'
      · rw [opening] at closes
        rw [if_pos opening, ih (Delimiters.closes_opening_cons_iff.mp closes), Option.map_some]
      · rw [if_neg opening]
        by_cases closing : c = '}'
        · rw [closing] at closes
          rw [if_pos closing]
          cases inner with
          | zero => exact (Delimiters.not_matched_closing_cons closes.matched).elim
          | succ inner =>
              dsimp only
              rw [ih (Delimiters.closes_closing_cons_iff.mp closes), Option.map_some]
        · rw [if_neg closing, ih ((Delimiters.closes_cons_iff_of_ne opening closing).mp closes),
            Option.map_some]

/-- The body ends at the first brace that closes one more than its own braces open. -/
theorem close?_eq_some_iff :
    close? inner text = some (body, behind) ↔
      text = body ++ '}' :: behind ∧ braces.Closes inner body := by
  constructor
  · intro closed
    exact ⟨close?_eq_some_append closed, closes_of_close? closed⟩
  · rintro ⟨rfl, closes⟩
    exact close?_of_closes closes behind

/-- A data filter in braces is balanced. -/
theorem balanced_of_close? (closed : close? 0 text = some (body, behind)) :
    braces.Balanced ('{' :: (body ++ ['}'])) :=
  Delimiters.Balanced.enclosed (closes_of_close? closed)

end DataFilter

/-- Placeholders are balanced. -/
theorem Placeholder.balanced_numbered (kind : Placeholder) (number : Nat) :
    braces.Balanced (kind.numbered number) := by
  have inside := DataFilter.numeral_unbraced kind number
  refine Delimiters.Balanced.enclosed (Delimiters.balanced_of_not_mem ?_ ?_)
  · intro member
    exact (inside _ member).1 rfl
  · intro member
    exact (inside _ member).2 rfl

/-- Writing placeholders in the places of balanced references leaves a text balanced. -/
theorem Piece.balanced_numbered {Record : Type} {pieces : List (Piece Record)}
    (spelled : ∀ spelling ∈ spellings pieces, braces.Balanced spelling) (kind : Placeholder)
    (next : Nat) {depth : Nat} (closes : braces.Closes depth (sources pieces)) :
    braces.Closes depth (numbered kind next pieces) := by
  induction pieces generalizing next depth with
  | nil => exact closes
  | cons piece pieces ih =>
      cases piece with
      | plain c =>
          rw [sources_cons_plain] at closes
          rw [numbered]
          exact closes.of_rest fun _ => ih spelled next
      | reference spelling record =>
          have here := spelled spelling (by simp)
          have later := ih (fun other member => spelled other (by simp [member])) (next + 1)
            (here.closes_append_iff.mp closes)
          exact (kind.balanced_numbered next).closes_append_iff.mpr later

namespace TagReference

variable {spelling : Spelling} {clause spelled behind : Text} {bodies : List OwnedBody}
  {tag : TagReference}

/-- What a step replaces is balanced. -/
theorem balanced_of_found
    (found : (step spelling clause bodies (spelled ++ behind)).found = .reference tag behind) :
    braces.Balanced spelled := by
  rw [found_step] at found
  cases read : read? spelling (spelled ++ behind) with
  | none =>
      rw [read] at found
      cases found
  | some result =>
      obtain ⟨plain, rest⟩ := result
      obtain ⟨marks, whole, marked, fits⟩ := spelled_of_read? read
      have name : braces.Balanced (marks ++ plain.toQualifiedName.spelled spelling) := by
        refine Delimiters.balanced_of_not_mem ?_ ?_ <;>
          · intro member
            cases isTagCharacter_of_mem marked fits member
      rw [← List.append_assoc] at whole
      simp only [read] at found
      split at found
      · cases found
      · split at found
        · rename_i opened
          split at found
          · cases found
          · rename_i body rest' closed
            cases found
            rw [DataFilter.eq_append_of_closed opened closed, ← List.append_assoc] at whole
            rw [List.append_cancel_right whole]
            exact name.closes_append_iff.mpr (DataFilter.balanced_of_close? closed)
        · cases found
          rw [List.append_cancel_right whole]
          exact name

/-- No step of the tag extraction fails in a balanced clause. -/
theorem found_ne_fail (balanced : braces.Balanced clause) {place : Text} (suffix : place <:+ clause)
    {error : QueryError} : (step spelling clause bodies place).found ≠ .fail error := by
  intro found
  rw [found_step] at found
  split at found
  · cases found
  · rename_i tag behind read
    split at found
    · cases found
    · split at found
      · rename_i opened
        split at found
        · rename_i unclosed
          obtain ⟨inside, rfl⟩ := eq_brace_cons_of_opens opened
          obtain ⟨front, rfl⟩ := suffix
          obtain ⟨marks, rfl, _⟩ := spelled_of_read? read
          rw [← List.append_assoc, ← List.append_assoc] at balanced
          exact balanced.not_matched (DataFilter.close?_eq_none_iff.mp unclosed)
        · cases found
      · cases found

/-- In a balanced clause a pass reaches the end. -/
theorem failure_of_balanced (balanced : braces.Balanced clause) :
    (scan spelling clause).failure = none := by
  rw [Option.eq_none_iff_forall_ne_some]
  intro error failed
  obtain ⟨place, _, reaches, found⟩ := Scan.failure_eq_some_iff.mp failed
  exact found_ne_fail balanced reaches.suffix found

/-- A pass leaves a balanced clause balanced. -/
theorem balanced_numbered (balanced : braces.Balanced clause) (next : Nat) :
    braces.Balanced (Piece.numbered .tag next (scan spelling clause).pieces) := by
  have unfailed : (scan spelling clause).failure = none := failure_of_balanced balanced
  refine Piece.balanced_numbered ?_ .tag next ?_
  · intro spelled member
    obtain ⟨tag, behind, found⟩ := (Scan.reads_ofSteps _ clause).reference_found member
    exact balanced_of_found found
  · rwa [show Piece.sources (scan spelling clause).pieces = clause from
      phase.sources_scan spelling clause unfailed]

end TagReference

end NoteQuery
