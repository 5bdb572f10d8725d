import NoteQuery.Text.Blank

/-! # Separators between clauses

The words `ORDER BY` and `GROUP BY`, in any case and with a blank on each side, separate the clauses
of a query. Cutting a text at a separator takes the first one.
-/

namespace NoteQuery

/-- What may stand between two clauses. -/
inductive Separator where
  | orderBy
  | groupBy
  deriving DecidableEq, Repr

namespace Separator

/-- The letters of a separator, in upper case. -/
def letters : Separator → Text
  | .orderBy => "ORDER BY".toList
  | .groupBy => "GROUP BY".toList

/-- The text behind some upper case letters, when the text starts with them in any case. -/
def afterLetters? : (letters : Text) → Text → Option Text
  | [], text => some text
  | _ :: _, [] => none
  | letter :: more, c :: rest => if c.toUpper = letter then afterLetters? more rest else none

/-- The text behind the separator and the blanks next to it, when the text starts with these. -/
def after? (separator : Separator) : Text → Option Text
  | [] => none
  | c :: rest =>
      if isBlank c then
        match afterLetters? separator.letters rest with
        | some (blank :: behind) => if isBlank blank then some behind else none
        | _ => none
      else none

/-- The texts in front of and behind the first separator of a kind. -/
def cut? (separator : Separator) : Text → Option (Text × Text)
  | [] => none
  | c :: rest =>
      match separator.after? (c :: rest) with
      | some behind => some ([], behind)
      | none => (separator.cut? rest).map fun (front, behind) => (c :: front, behind)

end Separator

end NoteQuery
