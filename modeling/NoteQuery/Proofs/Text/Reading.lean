import Mathlib.Data.List.TakeWhile
import NoteQuery.Text.Blank

/-! # What readers accept

The exact conditions under which the readers of texts succeed: a run is read where it is longest
(`Text.run?_eq_some_iff`), a text is cut at its first mark (`Text.cut?_eq_some_iff`,
`Text.cut?_eq_none_iff`), and an optional character is skipped where it stands
(`Text.skipOptional_eq_iff`).
-/

namespace NoteQuery.Text

/-- A run is read when it is not empty, belongs to the class and cannot be longer. -/
theorem run?_eq_some_iff {member : Char → Bool} {text run rest : Text} :
    run? member text = some (run, rest) ↔
      text = run ++ rest ∧ run ≠ [] ∧ (∀ c ∈ run, member c = true) ∧
        ∀ c ∈ rest.head?, member c = false := by
  constructor
  · intro read
    have whole := run?_eq_some_append read
    have filled := run?_ne_nil read
    simp only [run?, Option.ite_none_left_eq_some, Option.some.injEq, Prod.mk.injEq] at read
    obtain ⟨_, rfl, rfl⟩ := read
    refine ⟨whole, filled, fun c inside => List.mem_takeWhile_imp inside, fun c first => ?_⟩
    have stopped := List.head?_dropWhile_not member text
    rw [first] at stopped
    simpa using stopped
  · rintro ⟨rfl, filled, inside, outside⟩
    have stopped : rest.takeWhile member = [] := by
      cases rest with
      | nil => rfl
      | cons c rest => rw [List.takeWhile_cons, outside c rfl]; rfl
    have kept : rest.dropWhile member = rest := by
      cases rest with
      | nil => rfl
      | cons c rest => rw [List.dropWhile_cons, outside c rfl]; rfl
    rw [run?, List.takeWhile_append_of_pos inside, List.dropWhile_append_of_pos inside, stopped,
      kept, List.append_nil]
    simp only [List.isEmpty_iff, filled, ↓reduceIte]

/-- No run is read exactly when the first character is outside of the class. -/
theorem run?_eq_none_iff {member : Char → Bool} {text : Text} :
    run? member text = none ↔ ∀ c ∈ text.head?, member c = false := by
  cases text with
  | nil => simp [run?]
  | cons c rest => cases inside : member c <;> simp [run?, inside]

/-- A text is cut at the first mark. -/
theorem cut?_eq_some_iff {mark : Char} {text front behind : Text} :
    cut? mark text = some (front, behind) ↔ text = front ++ mark :: behind ∧ mark ∉ front := by
  induction text generalizing front with
  | nil => simp [cut?]
  | cons c rest ih =>
      by_cases same : c = mark
      · subst same
        cases front with
        | nil => simp [cut?, eq_comm]
        | cons other front =>
            simp only [cut?, ↓reduceIte, Option.some.injEq, Prod.mk.injEq, List.nil_eq,
              reduceCtorEq, false_and, List.cons_append, List.cons.injEq, List.mem_cons, not_or,
              false_iff, not_and]
            rintro ⟨rfl, _⟩ different
            exact (different rfl).elim
      · cases front with
        | nil => simp [cut?, same]
        | cons other front =>
            have different (equal : c = other) : mark ≠ other := fun marked =>
              same (equal.trans marked.symm)
            simp only [cut?, same, ↓reduceIte, Option.map_eq_some_iff, Prod.mk.injEq,
              List.cons.injEq, Prod.exists, List.cons_append, List.mem_cons, not_or]
            constructor
            · rintro ⟨shorter, _, cut, ⟨rfl, rfl⟩, rfl⟩
              obtain ⟨rfl, outside⟩ := ih.mp cut
              exact ⟨⟨rfl, rfl⟩, different rfl, outside⟩
            · rintro ⟨⟨rfl, whole⟩, _, outside⟩
              exact ⟨front, behind, ih.mpr ⟨whole, outside⟩, ⟨rfl, rfl⟩, rfl⟩

/-- A text is not cut exactly when it holds no mark. -/
theorem cut?_eq_none_iff {mark : Char} {text : Text} : cut? mark text = none ↔ mark ∉ text := by
  induction text with
  | nil => simp [cut?]
  | cons c rest ih =>
      by_cases same : c = mark
      · simp [cut?, same]
      · simp [cut?, same, ih, Ne.symm same]

/-- A text is cut at its first mark in one way only. -/
theorem eq_of_first_mark {mark : Char} {front front' behind behind' : Text}
    (same : front ++ mark :: behind = front' ++ mark :: behind') (free : mark ∉ front)
    (free' : mark ∉ front') : front = front' ∧ behind = behind' := by
  have cut : cut? mark (front ++ mark :: behind) = some (front, behind) :=
    cut?_eq_some_iff.mpr ⟨rfl, free⟩
  rw [cut?_eq_some_iff.mpr ⟨same, free'⟩] at cut
  cases cut
  exact ⟨rfl, rfl⟩

/-- A character that may or may not be there. -/
def optional (character : Char) (present : Bool) : Text :=
  if present then [character] else []

/-- A character is skipped where it stands, and nothing is skipped where it does not. -/
theorem skipOptional_eq_iff {character : Char} {text rest : Text} {present : Bool} :
    skipOptional character text = (present, rest) ↔
      text = optional character present ++ rest ∧ (present = false → character ∉ rest.head?) := by
  cases text with
  | nil => cases present <;> simp +contextual [skipOptional, optional, eq_comm]
  | cons c tail =>
      by_cases same : c = character
      · subst same
        cases present with
        | false =>
            simp only [skipOptional, ↓reduceIte, Prod.mk.injEq, Bool.true_eq_false, false_and,
              false_iff, not_and]
            rintro rfl absent
            exact absent trivial rfl
        | true => simp [skipOptional, optional]
      · cases present with
        | false =>
            simp only [skipOptional, same, ↓reduceIte, Prod.mk.injEq, true_and, optional,
              Bool.false_eq_true, List.nil_append, forall_const]
            constructor
            · rintro rfl
              exact ⟨rfl, fun first => same (Option.some.inj first)⟩
            · exact fun found => found.1
        | true => simp [skipOptional, optional, same]

end NoteQuery.Text
