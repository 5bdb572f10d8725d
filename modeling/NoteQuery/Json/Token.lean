import NoteQuery.Json.Value

/-! # Tokens of JSON

The tokens of a JSON text are its punctuation marks, words, numbers and strings; blanks stand
between them. Two values never follow each other in JSON, so a text such as `01`, which splits into
two numbers, is refused by the grammar of the tokens.
-/

namespace NoteQuery.Json

/-- A token of JSON. -/
inductive Token where
  | openBrace
  | closeBrace
  | openBracket
  | closeBracket
  | colon
  | comma
  | null
  | bool (value : Bool)
  | number (lexeme : Text)
  | string (literal : Literal)
  deriving DecidableEq, Repr

/-- The blanks of JSON. -/
def isSpace (c : Char) : Bool :=
  c == ' ' || c == '\t' || c == '\n' || c == '\r'

/-- The text behind the whole part of a number: a zero, or digits that start with another one. -/
def afterWhole? : Text → Option Text
  | '0' :: rest => some rest
  | text => (Text.run? Char.isDigit text).map Prod.snd

/-- The text behind the fraction of a number, if it has one. -/
def afterFraction? : Text → Option Text
  | '.' :: rest => (Text.run? Char.isDigit rest).map Prod.snd
  | text => some text

/-- A text without the sign at its start. -/
def unsigned : Text → Text
  | '+' :: rest => rest
  | '-' :: rest => rest
  | text => text

/-- The text behind the exponent of a number, if it has one. -/
def afterExponent? : Text → Option Text
  | [] => some []
  | c :: rest =>
      if c = 'e' ∨ c = 'E' then (Text.run? Char.isDigit (unsigned rest)).map Prod.snd
      else some (c :: rest)

/-- The text behind a number. -/
def afterNumber? (text : Text) : Option Text :=
  afterWhole? (Text.skipOptional '-' text).2 >>= afterFraction? >>= afterExponent?

/-- A whole part takes something. -/
theorem afterWhole?_isRestOf {text behind : Text} (read : afterWhole? text = some behind) :
    behind.IsRestOf text := by
  unfold afterWhole? at read
  split at read
  · obtain rfl := Option.some.inj read
    exact Text.IsRestOf.cons _ (List.suffix_refl _)
  · simp only [Option.map_eq_some_iff, Prod.exists, exists_eq_right] at read
    obtain ⟨_, read⟩ := read
    exact Text.isRestOf_of_run? read

/-- Reading a fraction leaves the end of the text. -/
theorem suffix_of_afterFraction? {text behind : Text} (read : afterFraction? text = some behind) :
    behind <:+ text := by
  unfold afterFraction? at read
  split at read
  · simp only [Option.map_eq_some_iff, Prod.exists, exists_eq_right] at read
    obtain ⟨_, read⟩ := read
    exact (Text.isRestOf_of_run? read).1.trans (List.suffix_cons _ _)
  · obtain rfl := Option.some.inj read
    exact List.suffix_refl _

/-- Skipping a sign leaves the end of the text. -/
theorem unsigned_suffix (text : Text) : unsigned text <:+ text := by
  unfold unsigned
  split
  · exact List.suffix_cons _ _
  · exact List.suffix_cons _ _
  · exact List.suffix_refl _

/-- Reading an exponent leaves the end of the text. -/
theorem suffix_of_afterExponent? {text behind : Text} (read : afterExponent? text = some behind) :
    behind <:+ text := by
  unfold afterExponent? at read
  split at read
  · obtain rfl := Option.some.inj read
    exact List.suffix_refl _
  · rename_i c rest
    split at read
    · simp only [Option.map_eq_some_iff, Prod.exists, exists_eq_right] at read
      obtain ⟨_, read⟩ := read
      exact ((Text.isRestOf_of_run? read).1.trans (unsigned_suffix rest)).trans
        (List.suffix_cons _ _)
    · obtain rfl := Option.some.inj read
      exact List.suffix_refl _

/-- A number takes something. -/
theorem afterNumber?_isRestOf {text behind : Text} (read : afterNumber? text = some behind) :
    behind.IsRestOf text := by
  simp only [afterNumber?, Option.bind_eq_bind, Option.bind_eq_some_iff] at read
  obtain ⟨fraction, ⟨exponent, whole, fractional⟩, exponential⟩ := read
  have later := (suffix_of_afterExponent? exponential).trans (suffix_of_afterFraction? fractional)
  have sign := Text.skipOptional_suffix '-' text
  have taken := (afterWhole?_isRestOf whole).of_suffix later
  exact ⟨taken.1.trans sign, Nat.lt_of_lt_of_le taken.2 sign.length_le⟩

namespace Token

/-- Reads the token at the start of a text. -/
def read? : Text → Option (Token × Text)
  | '{' :: rest => some (openBrace, rest)
  | '}' :: rest => some (closeBrace, rest)
  | '[' :: rest => some (openBracket, rest)
  | ']' :: rest => some (closeBracket, rest)
  | ':' :: rest => some (colon, rest)
  | ',' :: rest => some (comma, rest)
  | 'n' :: 'u' :: 'l' :: 'l' :: rest => some (null, rest)
  | 't' :: 'r' :: 'u' :: 'e' :: rest => some (bool true, rest)
  | 'f' :: 'a' :: 'l' :: 's' :: 'e' :: rest => some (bool false, rest)
  | '"' :: rest => (Literal.read? rest).map fun (literal, behind) => (string literal, behind)
  | text => (afterNumber? text).map fun behind => (number (text.upTo behind), behind)

/-- Reading a token takes something. -/
theorem read?_isRestOf {text behind : Text} {token : Token}
    (read : read? text = some (token, behind)) : behind.IsRestOf text := by
  unfold read? at read
  split at read
  case h_10 rest =>
    simp only [Option.map_eq_some_iff, Prod.exists, Prod.mk.injEq] at read
    obtain ⟨_, _, read, _, rfl⟩ := read
    exact Text.IsRestOf.cons _ (Literal.read?_isRestOf read).1
  case h_11 =>
    simp only [Option.map_eq_some_iff, Prod.mk.injEq] at read
    obtain ⟨_, read, _, rfl⟩ := read
    exact afterNumber?_isRestOf read
  all_goals
    simp only [Option.some.injEq, Prod.mk.injEq] at read
    obtain ⟨_, rfl⟩ := read
  case h_7 => exact Text.IsRestOf.cons 'n' ⟨['u', 'l', 'l'], rfl⟩
  case h_8 => exact Text.IsRestOf.cons 't' ⟨['r', 'u', 'e'], rfl⟩
  case h_9 => exact Text.IsRestOf.cons 'f' ⟨['a', 'l', 's', 'e'], rfl⟩
  all_goals exact Text.IsRestOf.cons _ (List.suffix_refl _)

/-- The tokens of a text. -/
def scan? : Text → Option (List Token)
  | [] => some []
  | c :: rest =>
      if isSpace c then scan? rest
      else
        match _ : read? (c :: rest) with
        | some (token, behind) => (scan? behind).map (token :: ·)
        | none => none
termination_by text => text.length
decreasing_by
  · exact Nat.lt_succ_self _
  · rename_i read
    exact (read?_isRestOf read).2

end Token

end NoteQuery.Json
