import NoteQuery.Json.Token

/-! # Reading JSON

A text is read by way of its tokens. A value that starts with a bracket or a brace reads its items
or members in turn; the depth of these calls is bounded by the number of tokens, since a value takes
at least one of them.
-/

namespace NoteQuery.Json

namespace Value

mutual

/-- Reads a value at the start of some tokens. -/
def read? : (fuel : Nat) → List Token → Option (Value × List Token)
  | 0, _ => none
  | fuel + 1, tokens =>
      match tokens with
      | .null :: rest => some (null, rest)
      | .bool value :: rest => some (bool value, rest)
      | .number lexeme :: rest => some (number lexeme, rest)
      | .string literal :: rest => some (string literal, rest)
      | .openBracket :: .closeBracket :: rest => some (array [], rest)
      | .openBracket :: rest =>
          (readItems? fuel rest).map fun (items, behind) => (array items, behind)
      | .openBrace :: .closeBrace :: rest => some (object [], rest)
      | .openBrace :: rest =>
          (readMembers? fuel rest).map fun (members, behind) => (object members, behind)
      | _ => none

/-- Reads the items of an array up to its closing bracket. -/
def readItems? : (fuel : Nat) → List Token → Option (List Value × List Token)
  | 0, _ => none
  | fuel + 1, tokens =>
      match read? fuel tokens with
      | some (item, .comma :: rest) =>
          (readItems? fuel rest).map fun (items, behind) => (item :: items, behind)
      | some (item, .closeBracket :: rest) => some ([item], rest)
      | _ => none

/-- Reads the members of an object up to its closing brace. -/
def readMembers? : (fuel : Nat) → List Token → Option (List (Literal × Value) × List Token)
  | fuel + 1, .string key :: .colon :: tokens =>
      match read? fuel tokens with
      | some (value, .comma :: rest) =>
          (readMembers? fuel rest).map fun (members, behind) => ((key, value) :: members, behind)
      | some (value, .closeBrace :: rest) => some ([(key, value)], rest)
      | _ => none
  | _, _ => none

end

/-- The value that makes up some tokens. -/
def ofTokens? (tokens : List Token) : Option Value :=
  match read? (2 * tokens.length + 1) tokens with
  | some (value, []) => some value
  | _ => none

/-- The value that makes up a text, blanks apart. -/
def parse? (text : Text) : Option Value :=
  Token.scan? text >>= ofTokens?

end Value

end NoteQuery.Json
