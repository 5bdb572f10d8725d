import NoteQuery.Proofs.Query.Grouping
import NoteQuery.Proofs.Query.Separator

/-! # Separators left in the clauses

The blank on either side of a separator may be any blank, and it may be one that was added at the
edge of a clause (`Separator.occurs_trim_iff`). A text is cut at the first separator, so none is
left in front of it (`Separator.not_occurs_of_cut?`). No `GROUP BY` is left in the filter or in the
order; an `ORDER BY` is left in the filter exactly when the blank behind it is taken by the first
`GROUP BY` (`Outline.clean_iff`).
-/

namespace NoteQuery

namespace Separator

variable {separator : Separator} {text front behind : Text} {c d blank : Char}

/-- Between its blanks, a separator neither starts nor ends with a blank. -/
theorem isBlank_of_letters {letters : Text} (same : letters.map Char.toUpper = separator.letters) :
    (∀ c ∈ letters.head?, isBlank c = false) ∧ ∀ c ∈ letters.getLast?, isBlank c = false := by
  have unblank {c : Char} (upper : isBlank c.toUpper = false) : isBlank c = false := by
    by_contra blank
    rw [toUpper_of_isBlank (Bool.not_eq_false _ ▸ blank)] at upper
    exact blank upper
  have first : separator.letters.head?.any isBlank = false := by cases separator <;> rfl
  have last : separator.letters.getLast?.any isBlank = false := by cases separator <;> rfl
  rw [← same, List.head?_map] at first
  rw [← same, List.getLast?_map] at last
  constructor
  · intro c member
    rw [Option.mem_def.mp member] at first
    exact unblank first
  · intro c member
    rw [Option.mem_def.mp member] at last
    exact unblank last

/-- A separator takes eight letters and two blanks. -/
theorem Spelled.length_eq (spelled : separator.Spelled text) : text.length = 10 := by
  obtain ⟨first, letters, last, rfl, _, _, same⟩ := spelled
  have counted := congrArg List.length same
  rw [List.length_map] at counted
  have eight : separator.letters.length = 8 := by cases separator <;> rfl
  simp only [List.length_cons, List.length_append, List.length_nil, counted, eight]

theorem not_occurs_of_length (short : text.length < 10) : ¬ separator.Occurs text := by
  rintro ⟨spelled, word, within⟩
  have longer := within.length_le
  rw [word.length_eq] at longer
  omega

/-- A separator does not start at a blank in front of another one. -/
theorem after?_eq_none_of_blank (blank : isBlank d = true) :
    separator.after? (c :: d :: text) = none := by
  rw [Option.eq_none_iff_forall_ne_some]
  intro behind read
  obtain ⟨_, ⟨first, letters, last, rfl, _, _, same⟩, whole⟩ := after?_eq_some_iff.mp read
  have start := (isBlank_of_letters same).1
  cases letters with
  | nil => cases separator <;> cases same
  | cons letter more =>
      simp only [List.cons_append, List.cons.injEq] at whole
      have unblank := start letter rfl
      rw [← whole.2.1, blank] at unblank
      cases unblank

/-- A blank in front of another one belongs to no separator. -/
theorem occurs_cons_cons_iff (blank : isBlank d = true) :
    separator.Occurs (c :: d :: text) ↔ separator.Occurs (d :: text) := by
  rw [← not_iff_not, ← cut?_eq_none_iff, ← cut?_eq_none_iff, cut?_cons,
    after?_eq_none_of_blank blank, Option.map_eq_none_iff]

/-- A separator does not end at a blank behind another one. -/
theorem occurs_append_pair_iff (blank : isBlank c = true) :
    separator.Occurs (text ++ [c, d]) ↔ separator.Occurs (text ++ [c]) := by
  have split : text ++ [c, d] = text ++ [c] ++ [d] := by simp
  constructor
  · rintro ⟨spelled, word, within⟩
    rw [split, List.infix_concat_iff] at within
    rcases within with ⟨front, whole⟩ | earlier
    · obtain ⟨first, letters, last, rfl, _, _, same⟩ := word
      have ends := (isBlank_of_letters same).2
      rw [← List.cons_append, ← List.append_assoc] at whole
      have inner := (List.append_inj' whole rfl).1
      cases letters using List.reverseRecOn with
      | nil => cases separator <;> cases same
      | append_singleton letters letter _ =>
          rw [← List.cons_append, ← List.append_assoc] at inner
          have unblank := ends letter (by simp)
          rw [(List.cons.inj (List.append_inj' inner rfl).2).1, blank] at unblank
          cases unblank
    · exact ⟨spelled, word, earlier⟩
  · intro occurs
    exact occurs.mono (split ▸ (List.prefix_append _ [d]).isInfix)

/-- Any other blank may stand in front of a separator. -/
theorem Occurs.replace_first (occurs : separator.Occurs (c :: text)) (blank : isBlank d = true) :
    separator.Occurs (d :: text) := by
  obtain ⟨spelled, word, within⟩ := occurs
  rcases List.infix_cons_iff.mp within with ⟨behind, whole⟩ | later
  · obtain ⟨first, letters, last, rfl, _, blank', same⟩ := word
    rw [List.cons_append, List.cons.injEq] at whole
    exact ⟨_, ⟨d, letters, last, rfl, blank, blank', same⟩, [], behind, by simp [← whole.2]⟩
  · exact ⟨spelled, word, later.trans (List.suffix_cons d text).isInfix⟩

/-- Any other blank may stand behind a separator. -/
theorem Occurs.replace_last (occurs : separator.Occurs (text ++ [c])) (blank : isBlank d = true) :
    separator.Occurs (text ++ [d]) := by
  obtain ⟨spelled, word, within⟩ := occurs
  rcases List.infix_concat_iff.mp within with ⟨front, whole⟩ | earlier
  · obtain ⟨first, letters, last, rfl, blank', _, same⟩ := word
    rw [← List.cons_append, ← List.append_assoc] at whole
    refine ⟨_, ⟨first, letters, d, rfl, blank', blank, same⟩, front, [], ?_⟩
    simp [← (List.append_inj' whole rfl).1]
  · exact ⟨spelled, word, earlier.trans (List.prefix_append text [d]).isInfix⟩

/-- Blanks in front of a text do not change which separators it holds. -/
theorem occurs_cons_append_iff (blank : isBlank c = true) (blanks : ∀ d ∈ front, isBlank d = true) :
    separator.Occurs (c :: (front ++ text)) ↔ separator.Occurs (' ' :: text) := by
  induction front generalizing c with
  | nil =>
      rw [List.nil_append]
      exact ⟨fun occurs => occurs.replace_first rfl, fun occurs => occurs.replace_first blank⟩
  | cons d front ih =>
      have here := blanks d List.mem_cons_self
      rw [List.cons_append, occurs_cons_cons_iff here]
      exact ih here fun e member => blanks e (List.mem_cons_of_mem _ member)

/-- Blanks behind a text do not change which separators it holds. -/
theorem occurs_append_append_iff (blank : isBlank c = true)
    (blanks : ∀ d ∈ behind, isBlank d = true) :
    separator.Occurs (text ++ (behind ++ [c])) ↔ separator.Occurs (text ++ [' ']) := by
  induction behind using List.reverseRecOn generalizing c with
  | nil => exact ⟨fun occurs => occurs.replace_last rfl, fun occurs => occurs.replace_last blank⟩
  | append_singleton behind d ih =>
      have here := blanks d (by simp)
      have split : text ++ (behind ++ [d] ++ [c]) = (text ++ behind) ++ [d, c] := by simp
      rw [split, occurs_append_pair_iff here, List.append_assoc]
      exact ih here fun e member => blanks e (List.mem_append_left _ member)

/-- A trimmed text holds the same separators as the text itself, when blanks stand around both. -/
theorem occurs_trim_iff (first : isBlank c = true) (last : isBlank d = true) :
    separator.Occurs (' ' :: (text.trim ++ [' '])) ↔ separator.Occurs (c :: (text ++ [d])) := by
  obtain ⟨blanks, ends, blank⟩ := Text.exists_trimEnd_append text.trimStart
  have starts : ∀ e ∈ text.takeWhile isBlank, isBlank e = true := fun e => List.mem_takeWhile_imp
  have whole : text ++ [d] = text.takeWhile isBlank ++ (text.trim ++ (blanks ++ [d])) := by
    calc text ++ [d]
        = text.takeWhile isBlank ++ text.trimStart ++ [d] := by
          rw [Text.trimStart, List.takeWhile_append_dropWhile]
      _ = text.takeWhile isBlank ++ (text.trim ++ (blanks ++ [d])) := by
          rw [ends, ← Text.trim]
          simp only [List.append_assoc]
  rw [whole, occurs_cons_append_iff first starts, ← List.cons_append, ← List.cons_append,
    occurs_append_append_iff last blank]

/-- A text is cut at the first separator: none is left in front of it, not even one that shares its
first blank. -/
theorem not_occurs_of_cut? (cut : separator.cut? text = some (front, behind)) :
    ∃ first letters last, text = front ++ first :: (letters ++ last :: behind) ∧
      isBlank first = true ∧ isBlank last = true ∧ ¬ separator.Occurs (front ++ [first]) := by
  induction text generalizing front with
  | nil => cases cut
  | cons c rest ih =>
      rw [cut?_cons] at cut
      cases read : separator.after? (c :: rest) with
      | some found =>
          rw [read] at cut
          cases cut
          obtain ⟨_, ⟨first, letters, last, rfl, blank, blank', _⟩, whole⟩ :=
            after?_eq_some_iff.mp read
          refine ⟨first, letters, last, by simpa using whole, blank, blank', ?_⟩
          exact not_occurs_of_length (by simp)
      | none =>
          rw [read] at cut
          obtain ⟨⟨shorter, _⟩, cut, same⟩ := Option.map_eq_some_iff.mp cut
          cases same
          obtain ⟨first, letters, last, rfl, blank, blank', free⟩ := ih cut
          refine ⟨first, letters, last, rfl, blank, blank', ?_⟩
          rintro ⟨spelled, word, within⟩
          rcases List.infix_cons_iff.mp within with ⟨after, whole⟩ | later
          · -- A separator in front of the one that was found would have been found.
            have earlier : c :: (shorter ++ first :: (letters ++ last :: behind)) =
                spelled ++ (after ++ (letters ++ last :: behind)) := by
              rw [← List.append_assoc, whole]
              simp
            rw [after?_eq_some_iff.mpr ⟨spelled, word, earlier⟩] at read
            cases read
          · exact free ⟨spelled, word, later⟩

end Separator

namespace Outline

open Separator (orderBy groupBy)

/-- The text in front of the first `GROUP BY`, with the blanks that are added to a query. -/
def head (query : Text) : Text :=
  match groupBy.cut? (' ' :: (query ++ [' '])) with
  | some (front, _) => front
  | none => ' ' :: (query ++ [' '])

/-- The text of the filter before it is trimmed. -/
def filterText (query : Text) : Text :=
  match orderBy.cut? (head query) with
  | some (front, _) => front
  | none => head query

/-- The only `ORDER BY` in front of the first `GROUP BY` stands directly there: the blank between
them, which both need, is taken by the `GROUP BY`. -/
def SharesBlank (query : Text) : Prop :=
  ¬ orderBy.Occurs (head query) ∧ orderBy.Occurs (head query ++ [' '])

variable {query : Text} {separator : Separator}

theorem exists_ofQuery_eq (query : Text) :
    ∃ groupings, ofQuery query = ofHead (head query) groupings := by
  simp only [ofQuery, head]
  cases groupBy.cut? (' ' :: (query ++ [' '])) with
  | none => exact ⟨_, rfl⟩
  | some found => exact ⟨_, rfl⟩

theorem filter_ofQuery (query : Text) :
    (ofQuery query).filter =
      if (filterText query).trim.isEmpty then none else some (filterText query).trim := by
  obtain ⟨groupings, same⟩ := exists_ofQuery_eq query
  rw [same, ofHead, filterText]
  cases orderBy.cut? (head query) <;> rfl

theorem order_ofQuery (query : Text) :
    (ofQuery query).order = (orderBy.cut? (head query)).map fun found => found.2.trim := by
  obtain ⟨groupings, same⟩ := exists_ofQuery_eq query
  rw [same, ofHead]
  cases orderBy.cut? (head query) <;> rfl

/-- Unless it is empty, the start of a padded query starts with the blank that was added. -/
theorem eq_cons_of_prefix {front : Text} (start : front <+: ' ' :: (query ++ [' '])) :
    front = [] ∨ ∃ rest, front = ' ' :: rest := by
  rcases List.prefix_cons_iff.mp start with rfl | ⟨rest, rfl, _⟩
  · exact .inl rfl
  · exact .inr ⟨rest, rfl⟩

theorem head_isPrefix (query : Text) : head query <+: ' ' :: (query ++ [' ']) := by
  unfold head
  cases cut : groupBy.cut? (' ' :: (query ++ [' '])) with
  | none => exact List.prefix_rfl
  | some found => exact (Separator.ends_of_cut? cut).1

theorem filterText_isPrefix (query : Text) : filterText query <+: head query := by
  unfold filterText
  cases cut : orderBy.cut? (head query) with
  | none => exact List.prefix_rfl
  | some found => exact (Separator.ends_of_cut? cut).1

/-- No `GROUP BY` stands in front of the first one, and none shares its first blank. -/
theorem not_occurs_head (query : Text) : ¬ groupBy.Occurs (head query ++ [' ']) := by
  unfold head
  cases cut : groupBy.cut? (' ' :: (query ++ [' '])) with
  | none =>
      have free := Separator.cut?_eq_none_iff.mp cut
      rw [← List.cons_append, List.append_assoc]
      exact fun occurs => free ((Separator.occurs_append_pair_iff rfl).mp occurs)
  | some found =>
      obtain ⟨first, _, _, _, blank, _, free⟩ := Separator.not_occurs_of_cut? cut
      exact fun occurs => free (occurs.replace_last blank)

/-- The filter holds a separator, with blanks added at its edges, exactly when its text does before
it is trimmed. -/
theorem filter_free_iff (query : Text) (separator : Separator) :
    (∀ filter ∈ (ofQuery query).filter, ¬ separator.Occurs (' ' :: (filter ++ [' ']))) ↔
      ¬ separator.Occurs (filterText query ++ [' ']) := by
  have trimmed : separator.Occurs (' ' :: ((filterText query).trim ++ [' '])) ↔
      separator.Occurs (filterText query ++ [' ']) := by
    rcases eq_cons_of_prefix ((filterText_isPrefix query).trans (head_isPrefix query)) with
      empty | ⟨rest, whole⟩
    · rw [empty]
      exact iff_of_false (Separator.not_occurs_of_length (by decide))
        (Separator.not_occurs_of_length (by decide))
    · have blank : isBlank ' ' = true := rfl
      rw [whole, Text.trim_cons_blank blank, Separator.occurs_trim_iff blank blank,
        List.cons_append]
  rw [filter_ofQuery, ← trimmed]
  cases empty : (filterText query).trim.isEmpty with
  | true =>
      rw [List.isEmpty_iff.mp empty]
      simp only [↓reduceIte, Option.mem_def, reduceCtorEq, false_imp_iff, implies_true, true_iff]
      exact Separator.not_occurs_of_length (by decide)
  | false => simp

/-- An `ORDER BY` is left in the filter exactly when it shares its blank with the `GROUP BY`. -/
theorem occurs_filterText_iff (query : Text) :
    orderBy.Occurs (filterText query ++ [' ']) ↔ SharesBlank query := by
  unfold filterText SharesBlank
  cases cut : orderBy.cut? (head query) with
  | none => exact (and_iff_right (Separator.cut?_eq_none_iff.mp cut)).symm
  | some found =>
      obtain ⟨first, _, _, _, blank, _, free⟩ := Separator.not_occurs_of_cut? cut
      have occurs : orderBy.Occurs (head query) := by
        by_contra absent
        rw [Separator.cut?_eq_none_iff.mpr absent] at cut
        cases cut
      exact iff_of_false (fun left => free (left.replace_last blank)) fun shares => shares.1 occurs

/-- **Splitting is clean**, except where an `ORDER BY` stands directly in front of the first
`GROUP BY` and shares its blank. No `GROUP BY` is left in the filter or in the order, also with
blanks added at their edges, and no `ORDER BY` is left in the filter unless it shares its blank with
the first `GROUP BY`; that one is left there. -/
theorem clean_iff (query : Text) :
    (∀ filter ∈ (ofQuery query).filter, ¬ groupBy.Occurs (' ' :: (filter ++ [' ']))) ∧
      (∀ order ∈ (ofQuery query).order, ¬ groupBy.Occurs (' ' :: (order ++ [' ']))) ∧
      ((∀ filter ∈ (ofQuery query).filter, ¬ orderBy.Occurs (' ' :: (filter ++ [' ']))) ↔
        ¬ SharesBlank query) := by
  refine ⟨?_, ?_, ?_⟩
  · rw [filter_free_iff]
    have within : filterText query ++ [' '] <:+: head query ++ [' '] ∨
        ∃ first rest, isBlank first = true ∧ head query = filterText query ++ first :: rest := by
      unfold filterText
      cases cut : orderBy.cut? (head query) with
      | none => exact .inl List.infix_rfl
      | some found =>
          obtain ⟨first, letters, last, whole, blank, _⟩ := Separator.not_occurs_of_cut? cut
          exact .inr ⟨first, _, blank, whole⟩
    intro occurs
    rcases within with inside | ⟨first, rest, blank, whole⟩
    · exact not_occurs_head query (occurs.mono inside)
    · have earlier := occurs.replace_last blank
      refine not_occurs_head query (earlier.mono ?_)
      rw [whole]
      exact ⟨[], rest ++ [' '], by simp⟩
  · intro order member occurs
    rw [order_ofQuery, Option.mem_def, Option.map_eq_some_iff] at member
    obtain ⟨⟨front, behind⟩, cut, rfl⟩ := member
    obtain ⟨first, letters, last, whole, _, blank, _⟩ := Separator.not_occurs_of_cut? cut
    have added : isBlank ' ' = true := rfl
    have untrimmed := (Separator.occurs_trim_iff blank added).mp occurs
    refine not_occurs_head query (untrimmed.mono ?_)
    rw [whole]
    exact ⟨front ++ first :: letters, [], by simp⟩
  · rw [filter_free_iff, occurs_filterText_iff]

/-- With two blanks between them, neither takes the blank of the other. -/
theorem clean_of_two_blanks :
    ¬ SharesBlank "a ORDER BY  GROUP BY b".toList ∧
      ∀ filter ∈ (ofQuery "a ORDER BY  GROUP BY b".toList).filter,
        ¬ orderBy.Occurs (' ' :: (filter ++ [' '])) := by
  have apart : ¬ SharesBlank "a ORDER BY  GROUP BY b".toList := by
    rintro ⟨absent, _⟩
    exact absent (by decide +kernel)
  exact ⟨apart, (clean_iff "a ORDER BY  GROUP BY b".toList).2.2.mpr apart⟩

/-- The `GROUP BY` takes the blank behind the `ORDER BY`, which is left in the filter. -/
theorem orderBy_in_filter :
    (ofQuery "a ORDER BY GROUP BY b".toList).filter = some "a ORDER BY".toList ∧
      orderBy.Occurs (' ' :: ("a ORDER BY".toList ++ [' '])) :=
  ⟨by decide +kernel, by decide +kernel⟩

end Outline

end NoteQuery
