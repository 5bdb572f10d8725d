import NoteQuery.Text.Basic

/-! # Placeholders

A placeholder stands for the record with its number, as in `{tag0}`. Compiled clauses hold
placeholders of tags and attributes, data filters hold placeholders of their expressions.
-/

namespace NoteQuery

/-- What a placeholder stands for. -/
inductive Placeholder where
  | tag
  | attribute
  | expression
  deriving DecidableEq, Repr

namespace Placeholder

/-- The word in front of the number. -/
def word : Placeholder → Text
  | .tag => ['t', 'a', 'g']
  | .attribute => ['a', 't', 't', 'r']
  | .expression => ['e', 'x', 'p']

/-- The placeholder with a given number. -/
def numbered (kind : Placeholder) (number : Nat) : Text :=
  '{' :: (kind.word ++ Text.ofNat number ++ ['}'])

/-- Whether a text starts with a placeholder of this kind, whatever its number. -/
def startsText (kind : Placeholder) (text : Text) : Bool :=
  match ('{' :: kind.word).isPrefixOf? text with
  | none => false
  | some digits =>
      match Text.run? Char.isDigit digits with
      | some (_, '}' :: _) => true
      | _ => false

end Placeholder

end NoteQuery
