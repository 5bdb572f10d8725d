import NoteQuery.Query.Grouping
import NoteQuery.Query.Separator

/-! # The outline of a query

The outline of a query is its clauses: the filter, the order behind `ORDER BY`, and the groupings
behind `GROUP BY`. Every text has an outline.
-/

namespace NoteQuery

/-- The clauses of a query. -/
structure Outline where
  filter : Option Text
  order : Option Text
  groupings : List Grouping
  deriving DecidableEq, Repr

namespace Outline

/-- The outline of the text in front of the groupings, given those. -/
def ofHead (head : Text) (groupings : List Grouping) : Outline :=
  let (filter, order) :=
    match Separator.orderBy.cut? head with
    | some (front, behind) => (front.trim, some behind.trim)
    | none => (head.trim, none)
  { filter := if filter.isEmpty then none else some filter, order, groupings }

/-- The outline of a query. A blank is added at each end, so that a separator there has one on both
sides, and a query is cut at the first `GROUP BY`, then in front of it at the first `ORDER BY`. -/
def ofQuery (query : Text) : Outline :=
  let padded := ' ' :: (query ++ [' '])
  match Separator.groupBy.cut? padded with
  | some (head, behind) => ofHead head (Grouping.ofList behind)
  | none => ofHead padded []

/-- The clauses of an outline: the filter, the order and the criteria, as far as they are there. -/
def clauses (outline : Outline) : List Text :=
  outline.filter.toList ++ outline.order.toList ++ outline.groupings.map Grouping.criteria

/-- An outline as it is written as a query. -/
def written (outline : Outline) : Text :=
  outline.filter.getD [] ++
    (match outline.order with
    | some order => " ORDER BY ".toList ++ order
    | none => []) ++
    if outline.groupings.isEmpty then []
    else " GROUP BY ".toList ++ [',', ' '].intercalate (outline.groupings.map Grouping.written)

end Outline

end NoteQuery
