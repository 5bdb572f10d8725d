import Mathlib.Data.List.Infix
import NoteQuery.Text.Basic

/-! # Delimiters that close each other

Braces and parentheses come in pairs. A text is matched when none of its prefixes closes more than
was open, and balanced when nothing is open at its end either. A balanced text may be taken away
from the start of another one without changing what is matched or closed behind it
(`Delimiters.Balanced.matched_append_iff`, `Delimiters.Balanced.closes_append_iff`). The delimiter
that closes the one at the start of a text is the first one to balance it
(`Delimiters.balanced_iff_enclosed`).
-/

namespace NoteQuery

/-- A pair of characters, the first of which opens what the second closes. -/
structure Delimiters where
  opening : Char
  closing : Char
  opening_ne_closing : opening ≠ closing

namespace Delimiters

/-- The delimiters of data filters. -/
def braces : Delimiters := ⟨'{', '}', by decide⟩

/-- The delimiters between which a comma ends no grouping. -/
def parentheses : Delimiters := ⟨'(', ')', by decide⟩

/-- No prefix of a text closes more than it opens and the `depth` that were open before it. -/
def Matched (pair : Delimiters) (depth : Nat) (text : Text) : Prop :=
  ∀ front, front <+: text → front.count pair.closing ≤ depth + front.count pair.opening

/-- A text is matched and closes all that it opens and the `depth` that were open before it. -/
structure Closes (pair : Delimiters) (depth : Nat) (text : Text) : Prop where
  matched : pair.Matched depth text
  total : text.count pair.closing = depth + text.count pair.opening

/-- No prefix of a text closes more than it opens, and the whole text closes all that it opens. -/
def Balanced (pair : Delimiters) (text : Text) : Prop :=
  pair.Closes 0 text

/-- Every prefix of a text but the empty one opens more than it closes. -/
def LeavesOpen (pair : Delimiters) (text : Text) : Prop :=
  ∀ front, front <+: text → front ≠ [] → front.count pair.closing < front.count pair.opening

variable {pair : Delimiters} {depth : Nat} {c : Char} {front rest text : Text}

instance (pair : Delimiters) (depth : Nat) (text : Text) : Decidable (pair.Matched depth text) :=
  decidable_of_iff
    (∀ front ∈ text.inits, front.count pair.closing ≤ depth + front.count pair.opening)
    (forall_congr' fun front => imp_congr_left (List.mem_inits front text))

instance (pair : Delimiters) (text : Text) : Decidable (pair.Balanced text) :=
  decidable_of_iff (pair.Matched 0 text ∧ text.count pair.closing = 0 + text.count pair.opening)
    ⟨fun both => ⟨both.1, both.2⟩, fun closes => ⟨closes.matched, closes.total⟩⟩

theorem matched_nil : pair.Matched depth [] := by
  intro front start
  simp [List.prefix_nil.mp start]

/-- What the first character of a text opens or closes counts for all its prefixes but the empty
one. -/
theorem matched_cons_iff :
    pair.Matched depth (c :: rest) ↔ ∀ front, front <+: rest →
      (c :: front).count pair.closing ≤ depth + (c :: front).count pair.opening := by
  constructor
  · intro matched front start
    exact matched (c :: front) (List.cons_prefix_cons.mpr ⟨rfl, start⟩)
  · intro matched front start
    rcases List.prefix_cons_iff.mp start with rfl | ⟨front, rfl, start⟩
    · simp
    · exact matched front (List.cons_prefix_cons.mp start).2

/-- An opening delimiter at the start is one more that is open for the rest. -/
theorem matched_opening_cons_iff :
    pair.Matched depth (pair.opening :: rest) ↔ pair.Matched (depth + 1) rest := by
  rw [matched_cons_iff]
  refine forall_congr' fun front => imp_congr_right fun _ => ?_
  rw [List.count_cons_of_ne pair.opening_ne_closing, List.count_cons_self]
  omega

/-- A closing delimiter cannot start a text in front of which none is open. -/
theorem not_matched_closing_cons : ¬ pair.Matched 0 (pair.closing :: rest) := by
  intro matched
  have first := matched_cons_iff.mp matched [] List.nil_prefix
  rw [List.count_cons_self, List.count_cons_of_ne pair.opening_ne_closing.symm] at first
  simp at first

/-- A closing delimiter at the start is one less that is open for the rest. -/
theorem matched_closing_cons_iff :
    pair.Matched (depth + 1) (pair.closing :: rest) ↔ pair.Matched depth rest := by
  rw [matched_cons_iff]
  refine forall_congr' fun front => imp_congr_right fun _ => ?_
  rw [List.count_cons_self, List.count_cons_of_ne pair.opening_ne_closing.symm]
  omega

theorem matched_cons_iff_of_ne (unopened : c ≠ pair.opening) (unclosed : c ≠ pair.closing) :
    pair.Matched depth (c :: rest) ↔ pair.Matched depth rest := by
  rw [matched_cons_iff]
  refine forall_congr' fun front => imp_congr_right fun _ => ?_
  rw [List.count_cons_of_ne unopened, List.count_cons_of_ne unclosed]

/-- An opening delimiter at the start is one more for the rest to close. -/
theorem closes_opening_cons_iff :
    pair.Closes depth (pair.opening :: rest) ↔ pair.Closes (depth + 1) rest := by
  have total : (pair.opening :: rest).count pair.closing =
      depth + (pair.opening :: rest).count pair.opening ↔
        rest.count pair.closing = depth + 1 + rest.count pair.opening := by
    rw [List.count_cons_of_ne pair.opening_ne_closing, List.count_cons_self]
    omega
  exact ⟨fun closes => ⟨matched_opening_cons_iff.mp closes.matched, total.mp closes.total⟩,
    fun closes => ⟨matched_opening_cons_iff.mpr closes.matched, total.mpr closes.total⟩⟩

/-- A closing delimiter at the start is one less for the rest to close. -/
theorem closes_closing_cons_iff :
    pair.Closes (depth + 1) (pair.closing :: rest) ↔ pair.Closes depth rest := by
  have total : (pair.closing :: rest).count pair.closing =
      depth + 1 + (pair.closing :: rest).count pair.opening ↔
        rest.count pair.closing = depth + rest.count pair.opening := by
    rw [List.count_cons_self, List.count_cons_of_ne pair.opening_ne_closing.symm]
    omega
  exact ⟨fun closes => ⟨matched_closing_cons_iff.mp closes.matched, total.mp closes.total⟩,
    fun closes => ⟨matched_closing_cons_iff.mpr closes.matched, total.mpr closes.total⟩⟩

theorem closes_cons_iff_of_ne (unopened : c ≠ pair.opening) (unclosed : c ≠ pair.closing) :
    pair.Closes depth (c :: rest) ↔ pair.Closes depth rest := by
  have total : (c :: rest).count pair.closing = depth + (c :: rest).count pair.opening ↔
      rest.count pair.closing = depth + rest.count pair.opening := by
    rw [List.count_cons_of_ne unopened, List.count_cons_of_ne unclosed]
  exact ⟨fun closes => ⟨(matched_cons_iff_of_ne unopened unclosed).mp closes.matched,
      total.mp closes.total⟩,
    fun closes => ⟨(matched_cons_iff_of_ne unopened unclosed).mpr closes.matched,
      total.mpr closes.total⟩⟩

/-- What is open behind the first character may be closed by another text. -/
theorem Closes.of_rest {rest' : Text} (closes : pair.Closes depth (c :: rest))
    (later : ∀ depth, pair.Closes depth rest → pair.Closes depth rest') :
    pair.Closes depth (c :: rest') := by
  by_cases opening : c = pair.opening
  · subst opening
    exact closes_opening_cons_iff.mpr (later _ (closes_opening_cons_iff.mp closes))
  · by_cases closing : c = pair.closing
    · subst closing
      cases depth with
      | zero => exact (not_matched_closing_cons closes.matched).elim
      | succ depth =>
          exact closes_closing_cons_iff.mpr (later _ (closes_closing_cons_iff.mp closes))
    · exact (closes_cons_iff_of_ne opening closing).mpr
        (later _ ((closes_cons_iff_of_ne opening closing).mp closes))

/-- A text without delimiters is balanced. -/
theorem balanced_of_not_mem (unopened : pair.opening ∉ text) (unclosed : pair.closing ∉ text) :
    pair.Balanced text := by
  refine ⟨fun front start => ?_, ?_⟩
  · rw [List.count_eq_zero_of_not_mem fun member => unclosed (start.subset member)]
    exact Nat.zero_le _
  · rw [List.count_eq_zero_of_not_mem unopened, List.count_eq_zero_of_not_mem unclosed]

namespace Balanced

/-- A balanced text does not change what is matched behind it. -/
theorem matched_append_iff (balanced : pair.Balanced front) :
    pair.Matched depth (front ++ rest) ↔ pair.Matched depth rest := by
  have total := balanced.total
  constructor
  · intro matched start prefixed
    have whole := matched (front ++ start) ((List.prefix_append_right_inj front).mpr prefixed)
    rw [List.count_append, List.count_append] at whole
    omega
  · rintro matched start ⟨ends, whole⟩
    rcases List.append_eq_append_iff.mp whole with ⟨cut, rfl, _⟩ | ⟨cut, rfl, rest⟩
    · have inside := balanced.matched start (List.prefix_append start cut)
      omega
    · have behind := matched cut ⟨ends, rest.symm⟩
      rw [List.count_append, List.count_append]
      omega

/-- A balanced text at the start makes no difference to what the rest closes. -/
theorem closes_append_iff (balanced : pair.Balanced front) :
    pair.Closes depth (front ++ rest) ↔ pair.Closes depth rest := by
  have total := balanced.total
  have totals : (front ++ rest).count pair.closing = depth + (front ++ rest).count pair.opening ↔
      rest.count pair.closing = depth + rest.count pair.opening := by
    rw [List.count_append, List.count_append]
    omega
  exact ⟨fun closes => ⟨balanced.matched_append_iff.mp closes.matched, totals.mp closes.total⟩,
    fun closes => ⟨balanced.matched_append_iff.mpr closes.matched, totals.mpr closes.total⟩⟩

/-- A balanced text between delimiters is balanced together with them. -/
theorem enclosed (balanced : pair.Balanced text) :
    pair.Balanced (pair.opening :: (text ++ [pair.closing])) := by
  refine closes_opening_cons_iff.mpr (balanced.closes_append_iff.mpr ?_)
  exact closes_closing_cons_iff.mpr (balanced_of_not_mem List.not_mem_nil List.not_mem_nil)

/-- What is opened in a balanced text is closed in it. -/
theorem not_matched (balanced : pair.Balanced (front ++ pair.opening :: rest)) :
    ¬ pair.Matched 0 rest := by
  intro matched
  have before := balanced.matched front (List.prefix_append _ _)
  have behind := matched rest List.prefix_rfl
  have total := balanced.total
  rw [List.count_append, List.count_append, List.count_cons_self,
    List.count_cons_of_ne pair.opening_ne_closing] at total
  omega

end Balanced

/-- Behind an opening delimiter, one is open as long as the text is matched. -/
theorem leavesOpen_opening_cons_iff :
    pair.LeavesOpen (pair.opening :: text) ↔ pair.Matched 0 text := by
  have counted (front : Text) :
      (pair.opening :: front).count pair.closing < (pair.opening :: front).count pair.opening ↔
        front.count pair.closing ≤ 0 + front.count pair.opening := by
    rw [List.count_cons_of_ne pair.opening_ne_closing, List.count_cons_self]
    omega
  constructor
  · intro ahead front start
    apply (counted front).mp
    exact ahead _ (List.cons_prefix_cons.mpr ⟨rfl, start⟩) (List.cons_ne_nil _ _)
  · intro matched front start filled
    obtain ⟨c, front, rfl⟩ := List.exists_cons_of_ne_nil filled
    obtain ⟨rfl, inside⟩ := List.cons_prefix_cons.mp start
    exact (counted front).mpr (matched front inside)

/-- The text between two delimiters is balanced when the second one balances the first one and no
delimiter in front of it does. -/
theorem balanced_iff_enclosed :
    pair.Balanced text ↔
      (pair.opening :: (text ++ [pair.closing])).count pair.opening =
          (pair.opening :: (text ++ [pair.closing])).count pair.closing ∧
        pair.LeavesOpen (pair.opening :: text) := by
  have counted :
      (pair.opening :: (text ++ [pair.closing])).count pair.opening =
          (pair.opening :: (text ++ [pair.closing])).count pair.closing ↔
        text.count pair.closing = 0 + text.count pair.opening := by
    rw [List.count_cons_self, List.count_cons_of_ne pair.opening_ne_closing, List.count_append,
      List.count_append, List.count_singleton_self,
      List.count_cons_of_ne pair.opening_ne_closing.symm, List.count_nil]
    omega
  rw [counted, leavesOpen_opening_cons_iff]
  exact ⟨fun closes => ⟨closes.total, closes.matched⟩, fun both => ⟨both.2, both.1⟩⟩

end Delimiters

end NoteQuery
