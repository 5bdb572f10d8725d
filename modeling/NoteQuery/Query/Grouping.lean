import NoteQuery.Text.Blank

/-! # Groupings

The text behind `GROUP BY` lists groupings, separated by commas. A comma in quotes or in
parentheses does not separate, so that a label such as `'Due FORMAT(DESC, yyyy)'` stays whole. A
grouping may end in a label, as in `@Due AS 'Due date'`.
-/

namespace NoteQuery

/-- A criterion to group by, and its label. -/
structure Grouping where
  criteria : Text
  name : Option Text
  deriving DecidableEq, Repr

namespace Grouping

/-- Cuts a text at the commas that separate items. Quotes are counted everywhere, parentheses only
outside of quotes, and a closing parenthesis without an open one has no effect. -/
def items (quoted : Bool) (depth : Nat) : Text → List Text
  | [] => [[]]
  | c :: rest =>
      if c = ',' && !quoted && depth == 0 then [] :: items quoted depth rest
      else
        let quotedNow := if c = '\'' then !quoted else quoted
        let depthNow :=
          if quoted then depth
          else if c = '(' then depth + 1
          else if c = ')' then depth - 1
          else depth
        (items quotedNow depthNow rest).modifyHead (c :: ·)

/-- Whether two letters are the word in front of a label: `AS` in any case, where the long s counts
as an S. -/
def isLabelWord (first second : Char) : Bool :=
  first.toUpper == 'A' && (second.toUpper == 'S' || second == 'ſ')

/-- The label that makes up a text: blanks, the word `AS`, blanks and the name in single quotes, the
last of which is the last character. -/
def label? (text : Text) : Option Text :=
  match Text.run? isBlank text with
  | some (_, first :: second :: rest) =>
      if isLabelWord first second then
        match Text.run? isBlank rest with
        | some (_, '\'' :: quoted) =>
            if quoted.getLast? = some '\'' then some quoted.dropLast else none
        | _ => none
      else none
  | _ => none

/-- Cuts a text at the first place from which on it is a label. -/
def cutLabel? : Text → Option (Text × Text)
  | [] => none
  | c :: rest =>
      match label? (c :: rest) with
      | some name => some ([], name)
      | none => (cutLabel? rest).map fun (criteria, name) => (c :: criteria, name)

/-- The grouping written in an item that has no blanks at its ends. -/
def ofItem (item : Text) : Grouping :=
  match cutLabel? item with
  | some (criteria, name) => ⟨criteria, some name⟩
  | none => ⟨item, none⟩

/-- The groupings written in the text behind `GROUP BY`; blank items are left out. -/
def ofList (text : Text) : List Grouping :=
  (((items false 0 text).map Text.trim).filter (!·.isEmpty)).map ofItem

/-- A grouping as it is written in a query. -/
def written (grouping : Grouping) : Text :=
  match grouping.name with
  | some name => grouping.criteria ++ " AS '".toList ++ name ++ ['\'']
  | none => grouping.criteria

end Grouping

end NoteQuery
