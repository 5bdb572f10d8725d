import NoteQuery.Json.Value

/-! # Writing JSON

A value is written compactly, or with each item and member on a line of its own that is indented by
two blanks for every bracket around it. Empty arrays and objects are written the same in both
layouts.
-/

namespace NoteQuery.Json

/-- The two layouts of JSON. -/
inductive Layout where
  | compact
  | indented
  deriving DecidableEq, Repr

namespace Layout

/-- What stands in front of an item inside `depth` brackets. -/
def lineBreak (depth : Nat) : Layout → Text
  | compact => []
  | indented => '\n' :: List.replicate (2 * depth) ' '

/-- What stands between a key and its value. -/
def colon : Layout → Text
  | compact => [':']
  | indented => [':', ' ']

end Layout

namespace Value

mutual

/-- A value inside `depth` brackets as it is written. -/
def written (layout : Layout) (depth : Nat) : Value → Text
  | null => "null".toList
  | bool true => "true".toList
  | bool false => "false".toList
  | number lexeme => lexeme
  | string literal => literal.written
  | array [] => ['[', ']']
  | array (item :: rest) =>
      '[' :: (layout.lineBreak (depth + 1) ++ item.written layout (depth + 1) ++
        writtenItems layout (depth + 1) rest ++ layout.lineBreak depth ++ [']'])
  | object [] => ['{', '}']
  | object ((key, value) :: rest) =>
      '{' :: (layout.lineBreak (depth + 1) ++ key.written ++ layout.colon ++
        value.written layout (depth + 1) ++ writtenMembers layout (depth + 1) rest ++
        layout.lineBreak depth ++ ['}'])

/-- The items behind the first one. -/
def writtenItems (layout : Layout) (depth : Nat) : List Value → Text
  | [] => []
  | item :: rest =>
      ',' :: (layout.lineBreak depth ++ item.written layout depth ++ writtenItems layout depth rest)

/-- The members behind the first one. -/
def writtenMembers (layout : Layout) (depth : Nat) : List (Literal × Value) → Text
  | [] => []
  | (key, value) :: rest =>
      ',' :: (layout.lineBreak depth ++ key.written ++ layout.colon ++ value.written layout depth ++
        writtenMembers layout depth rest)

end

/-- The text of a value. -/
def render (layout : Layout) (value : Value) : Text :=
  value.written layout 0

end Value

end NoteQuery.Json
