import Mathlib.Data.List.Infix
import NoteQuery.Proofs.Query.Clauses

/-! # Where separators stand

A text is cut at the first place where a separator is spelled (`Separator.cut?_eq_none_iff`,
`Separator.cut?_append`). A separator that is spelled in front of a blank does not reach over this
blank when what follows cannot be the second word of a separator (`Separator.after?_eq_none`), so
a text that holds no separator can be put in front of one.
-/

namespace NoteQuery.Separator

variable {separator : Separator} {text front behind : Text}

/-- The words of a separator in any case, with a blank on each side. -/
def Spelled (separator : Separator) (text : Text) : Prop :=
  ∃ first letters last, text = first :: (letters ++ [last]) ∧ isBlank first = true ∧
    isBlank last = true ∧ letters.map Char.toUpper = separator.letters

/-- A separator is spelled somewhere in a text. -/
def Occurs (separator : Separator) (text : Text) : Prop :=
  ∃ spelled, separator.Spelled spelled ∧ spelled <:+: text

theorem Occurs.mono (occurs : separator.Occurs front) (within : front <:+: text) :
    separator.Occurs text := by
  obtain ⟨spelled, word, inside⟩ := occurs
  exact ⟨spelled, word, inside.trans within⟩

theorem afterLetters?_eq_some_iff {letters : Text} :
    afterLetters? letters text = some behind ↔
      ∃ front, text = front ++ behind ∧ front.map Char.toUpper = letters := by
  induction letters generalizing text with
  | nil => simp [afterLetters?]
  | cons letter more ih =>
      cases text with
      | nil => simp [afterLetters?, eq_comm]
      | cons c rest =>
          rw [afterLetters?, Option.ite_none_right_eq_some, ih]
          constructor
          · rintro ⟨same, front, rfl, rfl⟩
            exact ⟨c :: front, rfl, by rw [List.map_cons, same]⟩
          · rintro ⟨front, whole, same⟩
            cases front with
            | nil => cases same
            | cons d front =>
                rw [List.map_cons, List.cons.injEq] at same
                rw [List.cons_append, List.cons.injEq] at whole
                obtain ⟨rfl, rfl⟩ := whole
                exact ⟨same.1, front, rfl, same.2⟩

/-- A separator is taken from the start of a text exactly when it is spelled there. -/
theorem after?_eq_some_iff :
    separator.after? text = some behind ↔
      ∃ spelled, separator.Spelled spelled ∧ text = spelled ++ behind := by
  cases text with
  | nil =>
      simp only [after?, reduceCtorEq, false_iff, not_exists, not_and]
      rintro spelled ⟨first, letters, last, rfl, _⟩ same
      cases same
  | cons c rest =>
      rw [after?, Option.ite_none_right_eq_some]
      constructor
      · rintro ⟨blank, read⟩
        split at read
        · rename_i d tail lettered
          rw [Option.ite_none_right_eq_some, Option.some.injEq] at read
          obtain ⟨blank', rfl⟩ := read
          obtain ⟨letters, rfl, same⟩ := afterLetters?_eq_some_iff.mp lettered
          exact ⟨c :: (letters ++ [d]), ⟨c, letters, d, rfl, blank, blank', same⟩, by simp⟩
        · cases read
      · rintro ⟨_, ⟨first, letters, last, rfl, blank, blank', same⟩, whole⟩
        simp only [List.cons_append, List.append_assoc, List.cons.injEq, List.nil_append] at whole
        obtain ⟨rfl, rfl⟩ := whole
        have lettered : afterLetters? separator.letters (letters ++ last :: behind) =
            some (last :: behind) := afterLetters?_eq_some_iff.mpr ⟨letters, rfl, same⟩
        simp only [blank, lettered, blank', ↓reduceIte, true_and]

/-- A text is not cut exactly when the separator is spelled nowhere in it. -/
theorem cut?_eq_none_iff : separator.cut? text = none ↔ ¬ separator.Occurs text := by
  induction text with
  | nil =>
      refine iff_of_true rfl ?_
      rintro ⟨spelled, ⟨first, letters, last, rfl, _⟩, within⟩
      exact absurd (List.infix_nil.mp within) (List.cons_ne_nil _ _)
  | cons c rest ih =>
      rw [cut?_cons]
      cases read : separator.after? (c :: rest) with
      | some behind =>
          obtain ⟨spelled, word, whole⟩ := after?_eq_some_iff.mp read
          simp only [reduceCtorEq, false_iff, not_not]
          exact ⟨spelled, word, whole ▸ (List.prefix_append spelled behind).isInfix⟩
      | none =>
          simp only [Option.map_eq_none_iff, ih, not_iff_not]
          constructor
          · rintro ⟨spelled, word, within⟩
            exact ⟨spelled, word, List.infix_cons within⟩
          · rintro ⟨spelled, word, within⟩
            rcases List.infix_cons_iff.mp within with ⟨behind, whole⟩ | later
            · rw [after?_eq_some_iff.mpr ⟨spelled, word, whole.symm⟩] at read
              cases read
            · exact ⟨spelled, word, later⟩

instance (separator : Separator) (text : Text) : Decidable (separator.Occurs text) :=
  decidable_of_iff (separator.cut? text ≠ none) (not_iff_comm.mp cut?_eq_none_iff.symm)

/-- Where no separator starts in the front of a text, the text is cut behind it. -/
theorem cut?_append
    (apart : ∀ place, place ≠ [] → place <:+ front → separator.after? (place ++ behind) = none) :
    separator.cut? (front ++ behind) =
      (separator.cut? behind).map fun (first, rest) => (front ++ first, rest) := by
  induction front with
  | nil => simp
  | cons c front ih =>
      have here := apart (c :: front) (List.cons_ne_nil c front) (List.suffix_refl _)
      have later := ih fun place filled suffix =>
        apart place filled (suffix.trans (List.suffix_cons c front))
      rw [List.cons_append] at here ⊢
      rw [cut?_cons, here, later]
      cases separator.cut? behind <;> rfl

/-- The second word of a separator starts with a B. -/
theorem head?_of_letters {before behind : Text}
    (split : separator.letters = before ++ ' ' :: behind) : behind.head? = some 'B' := by
  have second : ∀ separator : Separator, ∀ place ∈ separator.letters.tails,
      place.head? = some ' ' → place.tail.head? = some 'B' := by
    rintro (_ | _) <;> decide
  exact second separator (' ' :: behind) ((List.mem_tails _ _).mpr ⟨before, split.symm⟩) rfl

/-- A separator does not reach over the blank behind a text that holds none, when what follows the
blank is not the second word of a separator. -/
theorem after?_eq_none (free : ¬ separator.Occurs (front ++ [' ']))
    (other : ∀ c ∈ behind.head?, c.toUpper ≠ 'B') {place : Text} (filled : place ≠ [])
    (suffix : place <:+ front) : separator.after? (place ++ ' ' :: behind) = none := by
  rw [Option.eq_none_iff_forall_ne_some]
  intro rest read
  obtain ⟨spelled, word, whole⟩ := after?_eq_some_iff.mp read
  obtain ⟨before, rfl⟩ := suffix
  have outside : ¬ spelled <+: place ++ [' '] := by
    rintro ⟨cut, inside⟩
    exact free ⟨spelled, word, before, cut, by simp only [List.append_assoc, inside]⟩
  rw [← List.singleton_append, ← List.append_assoc] at whole
  rcases List.append_eq_append_iff.mp whole with ⟨cut, inside, ends⟩ | ⟨cut, inside, _⟩
  · obtain ⟨first, letters, last, rfl, _, _, same⟩ := word
    obtain ⟨p, place, rfl⟩ := List.exists_cons_of_ne_nil filled
    -- The separator ends behind the blank, so the blank is the one between its words.
    cases cut using List.reverseRecOn with
    | nil => exact outside ⟨[], by simpa using inside⟩
    | append_singleton cut l _ =>
        have behind_first : letters ++ [last] = (place ++ ' ' :: cut) ++ [l] := by
          simpa using (List.cons.inj inside).2
        rw [(List.append_inj' behind_first rfl).1, List.map_append, List.map_cons] at same
        have second := head?_of_letters same.symm
        cases cut with
        | nil => cases second
        | cons c cut =>
            refine other c ?_ ?_
            · rw [ends]
              rfl
            · simpa using second
  · exact outside ⟨cut, inside.symm⟩

/-- A text without a separator in front of a blank is not cut. -/
theorem cut?_append_blank (free : ¬ separator.Occurs (front ++ [' ']))
    (other : ∀ c ∈ behind.head?, c.toUpper ≠ 'B') :
    separator.cut? (front ++ ' ' :: behind) =
      (separator.cut? (' ' :: behind)).map fun (first, rest) => (front ++ first, rest) :=
  cut?_append fun _ filled suffix => after?_eq_none free other filled suffix

/-- A separator is spelled as it is written, with a blank on each side. -/
theorem cut?_letters (separator : Separator) (behind : Text) :
    separator.cut? (' ' :: (separator.letters ++ ' ' :: behind)) = some ([], behind) := by
  have spelled : separator.Spelled (' ' :: (separator.letters ++ [' '])) :=
    ⟨' ', separator.letters, ' ', rfl, rfl, rfl, by cases separator <;> decide⟩
  have read : separator.after? (' ' :: (separator.letters ++ ' ' :: behind)) = some behind :=
    after?_eq_some_iff.mpr ⟨_, spelled, by simp⟩
  rw [cut?_cons, read]

end NoteQuery.Separator
