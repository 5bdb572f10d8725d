import Mathlib.Data.List.Induction
import NoteQuery.Query.Outline

/-! # Where the clauses of a query come from

Every clause is a stretch of the query with a blank at each end (`Outline.infix_of_mem_clauses`).
So what the query does not hold, no clause of its outline holds.
-/

namespace NoteQuery

/-- A trimmed text is a stretch of the text. -/
theorem Text.trim_infix (text : Text) : text.trim <:+: text := by
  have front : text.trim <+: text.trimStart := by
    have back := List.dropWhile_suffix isBlank (l := text.trimStart.reverse)
    rw [← List.reverse_prefix, List.reverse_reverse] at back
    exact back
  exact front.isInfix.trans (List.dropWhile_suffix isBlank).isInfix

namespace Separator

variable {separator : Separator} {text front behind : Text}

/-- Letters that are read in any case leave the end of the text. -/
theorem suffix_of_afterLetters? {letters : Text} (read : afterLetters? letters text = some behind) :
    behind <:+ text := by
  induction letters generalizing text with
  | nil =>
      simp only [afterLetters?, Option.some.injEq] at read
      exact read ▸ List.suffix_refl _
  | cons letter more ih =>
      cases text with
      | nil => cases read
      | cons c rest =>
          simp only [afterLetters?, Option.ite_none_right_eq_some] at read
          exact (ih read.2).trans (List.suffix_cons c rest)

/-- A separator leaves the end of the text. -/
theorem suffix_of_after? (read : separator.after? text = some behind) : behind <:+ text := by
  unfold after? at read
  split at read
  · cases read
  · rename_i c rest
    split at read
    · split at read
      · rename_i blank tail letters
        simp only [Option.ite_none_right_eq_some, Option.some.injEq] at read
        rw [← read.2]
        exact (List.suffix_cons blank tail).trans
          ((suffix_of_afterLetters? letters).trans (List.suffix_cons c rest))
      · cases read
    · cases read

theorem cut?_cons (c : Char) (rest : Text) :
    separator.cut? (c :: rest) =
      match separator.after? (c :: rest) with
      | some behind => some ([], behind)
      | none => (separator.cut? rest).map fun (front, behind) => (c :: front, behind) := by
  delta cut?
  rfl

/-- A cut leaves the start and the end of a text. -/
theorem ends_of_cut? (cut : separator.cut? text = some (front, behind)) :
    front <+: text ∧ behind <:+ text := by
  induction text generalizing front with
  | nil => cases cut
  | cons c rest ih =>
      rw [cut?_cons] at cut
      split at cut
      · rename_i found
        cases cut
        exact ⟨List.nil_prefix, suffix_of_after? found⟩
      · simp only [Option.map_eq_some_iff, Prod.exists, Prod.mk.injEq] at cut
        obtain ⟨shorter, _, cut, rfl, rfl⟩ := cut
        obtain ⟨early, late⟩ := ih cut
        exact ⟨List.cons_prefix_cons.mpr ⟨rfl, early⟩, late.trans (List.suffix_cons c rest)⟩

end Separator

namespace Grouping

/-- The first item is the start of the text, and the others are stretches of it. -/
theorem items_eq_cons (quoted : Bool) (depth : Nat) (text : Text) :
    ∃ first rest, items quoted depth text = first :: rest ∧ first <+: text ∧
      ∀ item ∈ rest, item <:+: text := by
  induction text generalizing quoted depth with
  | nil => exact ⟨[], [], rfl, List.prefix_refl _, by simp⟩
  | cons c tail ih =>
      rw [items]
      split
      · obtain ⟨first, rest, same, start, stretches⟩ := ih quoted depth
        refine ⟨[], _, rfl, List.nil_prefix, ?_⟩
        intro item member
        rw [same, List.mem_cons] at member
        rcases member with rfl | later
        · exact List.infix_cons start.isInfix
        · exact List.infix_cons (stretches item later)
      · obtain ⟨first, rest, same, start, stretches⟩ :=
          ih (if c = '\'' then !quoted else quoted)
            (if quoted then depth
              else if c = '(' then depth + 1
              else if c = ')' then depth - 1
              else depth)
        refine ⟨c :: first, rest, by simp only [same, List.modifyHead_cons],
          List.cons_prefix_cons.mpr ⟨rfl, start⟩, ?_⟩
        intro item later
        exact List.infix_cons (stretches item later)

/-- Every item of a list is a stretch of it. -/
theorem infix_of_mem_items {quoted : Bool} {depth : Nat} {text item : Text}
    (member : item ∈ items quoted depth text) : item <:+: text := by
  obtain ⟨first, rest, same, start, stretches⟩ := items_eq_cons quoted depth text
  rw [same, List.mem_cons] at member
  rcases member with rfl | later
  · exact start.isInfix
  · exact stretches item later

theorem cutLabel?_cons (c : Char) (rest : Text) :
    cutLabel? (c :: rest) =
      match label? (c :: rest) with
      | some name => some ([], name)
      | none => (cutLabel? rest).map fun (criteria, name) => (c :: criteria, name) := by
  delta cutLabel?
  rfl

/-- The criteria of a labelled item are its start. -/
theorem prefix_of_cutLabel? {text criteria name : Text}
    (cut : cutLabel? text = some (criteria, name)) : criteria <+: text := by
  induction text generalizing criteria with
  | nil => cases cut
  | cons c rest ih =>
      rw [cutLabel?_cons] at cut
      cases labelled : label? (c :: rest) with
      | some label =>
          simp only [labelled, Option.some.injEq, Prod.mk.injEq] at cut
          rw [← cut.1]
          exact List.nil_prefix
      | none =>
          simp only [labelled, Option.map_eq_some_iff, Prod.exists, Prod.mk.injEq] at cut
          obtain ⟨shorter, _, cut, rfl, rfl⟩ := cut
          exact List.cons_prefix_cons.mpr ⟨rfl, ih cut⟩

/-- The criteria of a grouping are a stretch of the list that it was read from. -/
theorem criteria_infix_of_mem_ofList {text : Text} {grouping : Grouping}
    (member : grouping ∈ ofList text) : grouping.criteria <:+: text := by
  simp only [ofList, List.mem_map, List.mem_filter] at member
  obtain ⟨_, ⟨⟨item, inside, rfl⟩, _⟩, rfl⟩ := member
  have stretch := (Text.trim_infix item).trans (infix_of_mem_items inside)
  unfold ofItem
  split
  · rename_i criteria name cut
    exact (prefix_of_cutLabel? cut).isInfix.trans stretch
  · exact stretch

end Grouping

namespace Outline

/-- A clause is a stretch of the text in front of the groupings, or the criteria of one of them. -/
theorem infix_of_mem_ofHead {head clause : Text} {groupings : List Grouping}
    (member : clause ∈ (ofHead head groupings).clauses) :
    clause <:+: head ∨ clause ∈ groupings.map Grouping.criteria := by
  simp only [clauses, List.mem_append, Option.mem_toList] at member
  rcases member with (filtered | ordered) | grouped
  · left
    simp only [ofHead, Option.ite_none_left_eq_some, Option.some.injEq] at filtered
    obtain ⟨_, rfl⟩ := filtered
    split
    · rename_i front behind cut
      exact (Text.trim_infix front).trans (Separator.ends_of_cut? cut).1.isInfix
    · exact Text.trim_infix head
  · left
    simp only [ofHead] at ordered
    split at ordered
    · rename_i front behind cut
      cases ordered
      exact (Text.trim_infix behind).trans (Separator.ends_of_cut? cut).2.isInfix
    · cases ordered
  · exact .inr grouped

/-- A clause of a query is a stretch of the query with a blank at each end. -/
theorem infix_of_mem_clauses {query clause : Text} (member : clause ∈ (ofQuery query).clauses) :
    clause <:+: ' ' :: (query ++ [' ']) := by
  dsimp only [ofQuery] at member
  split at member
  · rename_i head behind cut
    have ends := Separator.ends_of_cut? cut
    rcases infix_of_mem_ofHead member with early | grouped
    · exact early.trans ends.1.isInfix
    · obtain ⟨grouping, listed, rfl⟩ := List.mem_map.mp grouped
      exact (Grouping.criteria_infix_of_mem_ofList listed).trans ends.2.isInfix
  · rcases infix_of_mem_ofHead member with early | grouped
    · exact early
    · cases grouped

/-- A pattern that holds no blank stands in a clause only when it stands in the query. -/
theorem infix_query_of_mem_clauses {query clause pattern : Text}
    (member : clause ∈ (ofQuery query).clauses) (within : pattern <:+: clause)
    (filled : pattern ≠ []) (unblank : ' ' ∉ pattern) : pattern <:+: query := by
  have padded := within.trans (infix_of_mem_clauses member)
  rcases List.infix_cons_iff.mp padded with front | ⟨before, behind, whole⟩
  · obtain ⟨c, pattern, rfl⟩ := List.exists_cons_of_ne_nil filled
    rw [(List.cons_prefix_cons.mp front).1] at unblank
    exact (unblank List.mem_cons_self).elim
  · cases behind using List.reverseRecOn with
    | nil =>
        cases pattern using List.reverseRecOn with
        | nil => exact (filled rfl).elim
        | append_singleton front last _ =>
            rw [List.append_nil, ← List.append_assoc] at whole
            have same := (List.append_inj' whole rfl).2
            simp only [List.cons.injEq, and_true] at same
            exact (unblank (by simp [same])).elim
    | append_singleton behind last _ =>
        rw [← List.append_assoc] at whole
        exact ⟨before, behind, (List.append_inj' whole rfl).1⟩

/-- A clause of a query without braces has none either. -/
theorem unbraced_of_mem_clauses {query clause : Text} (unbraced : '{' ∉ query)
    (member : clause ∈ (ofQuery query).clauses) : '{' ∉ clause := by
  intro brace
  obtain ⟨front, back, rfl⟩ := List.append_of_mem brace
  have within : ['{'] <:+: query :=
    infix_query_of_mem_clauses member ⟨front, back, by simp⟩ (by simp) (by simp)
  exact unbraced (within.subset List.mem_cons_self)

end Outline

end NoteQuery
