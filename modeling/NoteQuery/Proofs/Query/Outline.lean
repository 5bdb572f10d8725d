import NoteQuery.Proofs.Query.Grouping
import NoteQuery.Proofs.Query.Separator

/-! # Reading outlines back

An outline that is written as a query is read back from it (`Outline.ofQuery_written`): the first
`GROUP BY` and, in front of it, the first `ORDER BY` are those that were written, because no
separator can be spelled with the end of one clause and the separator behind it.
-/

namespace NoteQuery

namespace Outline

/-- An outline that can be written as a query and read back. -/
structure Writable (outline : Outline) : Prop where
  filter_filled : ∀ filter ∈ outline.filter, filter ≠ []
  filter_trimmed : ∀ filter ∈ outline.filter, filter.trim = filter
  filter_free : ∀ filter ∈ outline.filter, ∀ separator : Separator,
    ¬ separator.Occurs (' ' :: (filter ++ [' ']))
  order_trimmed : ∀ order ∈ outline.order, order.trim = order
  order_free : ∀ order ∈ outline.order, ¬ Separator.groupBy.Occurs (' ' :: (order ++ [' ']))
  groupings : ∀ grouping ∈ outline.groupings, grouping.Writable

variable {outline : Outline} {order rest tail : Text}

/-- The filter as it is written. -/
def writtenFilter (outline : Outline) : Text :=
  outline.filter.getD []

/-- The filter and the order as they are written. -/
def writtenHead (outline : Outline) : Text :=
  outline.writtenFilter ++
    match outline.order with
    | some order => ' ' :: (Separator.orderBy.letters ++ ' ' :: order)
    | none => []

theorem written_eq (outline : Outline) :
    outline.written = outline.writtenHead ++
      if outline.groupings.isEmpty then []
      else ' ' :: (Separator.groupBy.letters ++ ' ' :: Grouping.writtenList outline.groupings) := by
  obtain ⟨filter, order, groupings⟩ := outline
  cases order <;> rfl

/-- No `GROUP BY` starts in the words `ORDER BY` or at the blank in front of them. -/
theorem cut?_groupBy_orderBy (rest : Text) :
    Separator.groupBy.cut? (' ' :: (Separator.orderBy.letters ++ rest)) =
      (Separator.groupBy.cut? rest).map fun (first, behind) =>
        (' ' :: (Separator.orderBy.letters ++ first), behind) := by
  have words (text : Text) :
      ' ' :: (Separator.orderBy.letters ++ text) = " ORDER BY".toList ++ text := rfl
  simp only [words]
  refine Separator.cut?_append fun place filled suffix => ?_
  have places := (List.mem_tails place _).mpr suffix
  have spelled : " ORDER BY".toList.tails =
      [" ORDER BY".toList, "ORDER BY".toList, "RDER BY".toList, "DER BY".toList, "ER BY".toList,
        "R BY".toList, " BY".toList, "BY".toList, "Y".toList, []] := rfl
  rw [spelled] at places
  simp only [List.mem_cons, List.not_mem_nil, or_false] at places
  rcases places with rfl | rfl | rfl | rfl | rfl | rfl | rfl | rfl | rfl | rfl
  all_goals first | rfl | exact (filled rfl).elim

namespace Writable

/-- No separator is spelled with the filter and the blanks around it. -/
theorem filter_unseparated (writable : outline.Writable) (separator : Separator) :
    ¬ separator.Occurs (' ' :: outline.writtenFilter ++ [' ']) := by
  rw [writtenFilter]
  cases same : outline.filter with
  | none => cases separator <;> decide
  | some filter => exact writable.filter_free filter same separator

/-- No `GROUP BY` is spelled with the filter and the order and the blanks around them. -/
theorem head_unseparated (writable : outline.Writable) :
    ¬ Separator.groupBy.Occurs (' ' :: outline.writtenHead ++ [' ']) := by
  cases same : outline.order with
  | none => simpa [writtenHead, same] using writable.filter_unseparated .groupBy
  | some order =>
      have whole : ' ' :: outline.writtenHead ++ [' '] =
          (' ' :: outline.writtenFilter) ++
            ' ' :: (Separator.orderBy.letters ++ ' ' :: (order ++ [' '])) := by
        simp [writtenHead, same]
      have behind := Separator.cut?_eq_none_iff.mpr (writable.order_free order same)
      rw [← Separator.cut?_eq_none_iff, whole,
        Separator.cut?_append_blank (writable.filter_unseparated .groupBy) ?_,
        cut?_groupBy_orderBy, behind]
      · rfl
      · rintro c ⟨⟩
        decide

theorem trim_writtenFilter (writable : outline.Writable) :
    outline.writtenFilter.trim = outline.writtenFilter := by
  rw [writtenFilter]
  cases same : outline.filter with
  | none => rfl
  | some filter => exact writable.filter_trimmed filter same

/-- The filter is absent exactly when nothing is written for it. -/
theorem filter_eq (writable : outline.Writable) :
    (if outline.writtenFilter.isEmpty then none else some outline.writtenFilter) =
      outline.filter := by
  rw [writtenFilter]
  cases same : outline.filter with
  | none => rfl
  | some filter =>
      rw [Option.getD_some, if_neg]
      simpa using writable.filter_filled filter same

/-- The filter and the order are read back, whether or not there is a blank behind them. -/
theorem ofHead_written (writable : outline.Writable) (ends : tail = [] ∨ tail = [' ']) :
    ofHead (' ' :: (outline.writtenHead ++ tail)) outline.groupings = outline := by
  have blank : ∀ c ∈ tail, isBlank c = true := by
    rcases ends with rfl | rfl
    · exact List.forall_mem_nil _
    · exact List.forall_mem_singleton.mpr rfl
  have filter := writable.filter_eq
  cases same : outline.order with
  | none =>
      have whole : ' ' :: (outline.writtenHead ++ tail) =
          ' ' :: (outline.writtenFilter ++ tail) := by
        simp [writtenHead, same]
      have within : ' ' :: (outline.writtenFilter ++ tail) <:+:
          ' ' :: outline.writtenFilter ++ [' '] := by
        rcases ends with rfl | rfl
        · exact ⟨[], [' '], by simp⟩
        · exact ⟨[], [], by simp⟩
      have uncut := Separator.cut?_eq_none_iff.mpr fun occurs =>
        writable.filter_unseparated .orderBy (occurs.mono within)
      have trimmed : Text.trim (' ' :: (outline.writtenFilter ++ tail)) = outline.writtenFilter :=
        (Text.trim_cons_blank rfl _).trans
          (Text.trim_append_blank writable.trim_writtenFilter blank)
      rw [whole, ofHead, uncut]
      dsimp only
      rw [trimmed, filter, ← same]
  | some order =>
      have whole : ' ' :: (outline.writtenHead ++ tail) =
          (' ' :: outline.writtenFilter) ++
            ' ' :: (Separator.orderBy.letters ++ ' ' :: (order ++ tail)) := by
        simp [writtenHead, same]
      have cut : Separator.orderBy.cut? (' ' :: (outline.writtenHead ++ tail)) =
          some (' ' :: outline.writtenFilter, order ++ tail) := by
        rw [whole, Separator.cut?_append_blank (writable.filter_unseparated .orderBy) ?_,
          Separator.cut?_letters, Option.map_some]
        · simp only [List.append_nil]
        · rintro c ⟨⟩
          decide
      have front : Text.trim (' ' :: outline.writtenFilter) = outline.writtenFilter :=
        (Text.trim_cons_blank rfl _).trans writable.trim_writtenFilter
      have behind : Text.trim (order ++ tail) = order :=
        Text.trim_append_blank (writable.order_trimmed order same) blank
      rw [ofHead, cut]
      dsimp only
      rw [front, behind, filter, ← same]

end Writable

/-- **An outline that is written as a query is read back.** -/
theorem ofQuery_written (writable : outline.Writable) : ofQuery outline.written = outline := by
  rw [ofQuery, written_eq]
  cases same : outline.groupings with
  | nil =>
      have whole : ' ' :: (outline.writtenHead ++ [] ++ [' ']) =
          ' ' :: outline.writtenHead ++ [' '] := by simp
      have uncut := Separator.cut?_eq_none_iff.mpr writable.head_unseparated
      have read := writable.ofHead_written (.inr rfl)
      rw [same] at read
      simp only [List.isEmpty_nil, ↓reduceIte, whole, uncut]
      exact read
  | cons first more =>
      have whole : ' ' :: (outline.writtenHead ++ ' ' :: (Separator.groupBy.letters ++
          ' ' :: Grouping.writtenList outline.groupings) ++ [' ']) =
            (' ' :: outline.writtenHead) ++ ' ' :: (Separator.groupBy.letters ++
              ' ' :: (Grouping.writtenList outline.groupings ++ [' '])) := by
        simp
      have cut : Separator.groupBy.cut? ((' ' :: outline.writtenHead) ++
          ' ' :: (Separator.groupBy.letters ++
            ' ' :: (Grouping.writtenList outline.groupings ++ [' ']))) =
            some (' ' :: outline.writtenHead, Grouping.writtenList outline.groupings ++ [' ']) := by
        rw [Separator.cut?_append_blank writable.head_unseparated ?_,
          Separator.cut?_letters, Option.map_some]
        · simp only [List.append_nil]
        · rintro c ⟨⟩
          decide
      have listed : outline.groupings ≠ [] := by
        rw [same]
        exact List.cons_ne_nil first more
      have read := writable.ofHead_written (.inl rfl)
      rw [List.append_nil] at read
      rw [← same, if_neg (by simpa using listed)]
      simp only [whole, cut]
      rw [Grouping.ofList_written listed writable.groupings, read]

/-- An empty order, commas in parentheses and parentheses in a label are read back. -/
theorem ofQuery_written_note :
    ofQuery "#a ORDER BY  GROUP BY F(@b, c) AS 'x, (y', @d".toList =
      { filter := some "#a".toList
        order := some []
        groupings := [⟨"F(@b, c)".toList, some "x, (y".toList⟩, ⟨"@d".toList, none⟩] } := by
  have writable : Writable
      { filter := some "#a".toList
        order := some []
        groupings := [⟨"F(@b, c)".toList, some "x, (y".toList⟩, ⟨"@d".toList, none⟩] } := by
    constructor
    · rintro _ ⟨⟩
      decide
    · rintro _ ⟨⟩
      decide
    · rintro _ ⟨⟩ (_ | _) <;> decide +kernel
    · rintro _ ⟨⟩
      decide
    · rintro _ ⟨⟩
      decide +kernel
    · intro grouping member
      simp only [List.mem_cons, List.not_mem_nil, or_false] at member
      rcases member with rfl | rfl
      · exact ⟨by decide, by decide, by decide, by decide +kernel, by decide +kernel,
          by rintro _ ⟨⟩; decide⟩
      · exact ⟨by decide, by decide, by decide, by decide +kernel, by decide +kernel,
          by rintro _ ⟨⟩⟩
  exact ofQuery_written writable

end Outline

end NoteQuery
