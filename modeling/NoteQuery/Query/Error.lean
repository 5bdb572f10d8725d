import NoteQuery.Text.Basic

/-! # Errors of a query

A query is refused only because of a delimiter that is never closed. The error names the reference
that opened it, the place, and the part of the query.
-/

namespace NoteQuery

/-- The part of a query that an error refers to. Groupings are counted from one. -/
inductive QueryPart where
  | clause
  | filter
  | order
  | grouping (number : Nat)
  deriving DecidableEq, Repr

/-- The name of a part in a message. -/
def QueryPart.phrase : QueryPart → String
  | .clause => "clause"
  | .filter => "filter clause"
  | .order => "ORDER BY clause"
  | .grouping number => "GROUP BY item " ++ toString number

/-- A delimiter that a reference opens. -/
inductive OpenDelimiter where
  /-- The parenthesis of the tag filters of an attribute. -/
  | tagFilters
  /-- The brace of the data filter of a tag. -/
  | dataFilter
  deriving DecidableEq, Repr

/-- A delimiter was opened by the reference with a given name and never closed. The position counts
the bytes in front of it. -/
structure QueryError where
  unclosed : OpenDelimiter
  name : Text
  position : Nat
  part : QueryPart := .clause
  deriving DecidableEq, Repr

namespace QueryError

/-- The same error, located in a part of the query. -/
def inPart (part : QueryPart) (error : QueryError) : QueryError :=
  { error with part }

/-- The error in words. -/
def message (error : QueryError) : String :=
  let opened :=
    match error.unclosed with
    | .tagFilters => "unclosed bracket in attribute filter '"
    | .dataFilter => "unclosed brace in data filter of tag '"
  opened ++ String.ofList error.name ++ "' at byte " ++ toString error.position ++ " of the " ++
    error.part.phrase

end QueryError

end NoteQuery
