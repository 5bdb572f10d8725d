import NoteQuery.Text.Basic

/-! # String literals of JSON

A string of JSON is a sequence of characters and of halves of surrogate pairs: an escape can write
one half without the other, and such a string is no text. Quoting a text escapes the quote, the
backslash and the control characters.
-/

namespace NoteQuery.Json

/-- An element of a string: a character, or half of a surrogate pair given by its code unit. -/
inductive Element where
  | char (character : Char)
  | half (unit : Nat)
  deriving DecidableEq, Repr

/-- The content of a string. -/
abbrev Literal := List Element

/-- A hexadecimal digit of a number below 16, in lower case. -/
def hexDigit (value : Nat) : Char :=
  Nat.digitChar value

/-- The value of a hexadecimal digit. -/
def hexValue? (c : Char) : Option Nat :=
  if c.isDigit then some (c.toNat - 48)
  else if 'a' ≤ c ∧ c ≤ 'f' then some (c.toNat - 87)
  else if 'A' ≤ c ∧ c ≤ 'F' then some (c.toNat - 55)
  else none

namespace Element

/-- The element with a given code unit of 16 bits. -/
def ofUnit (unit : Nat) : Element :=
  if 0xD800 ≤ unit ∧ unit ≤ 0xDFFF then half unit else char (Char.ofNat unit)

/-- Reads what stands behind a backslash. -/
def readEscape? : Text → Option (Element × Text)
  | '"' :: rest => some (char '"', rest)
  | '\\' :: rest => some (char '\\', rest)
  | '/' :: rest => some (char '/', rest)
  | 'b' :: rest => some (char '\x08', rest)
  | 'f' :: rest => some (char '\x0c', rest)
  | 'n' :: rest => some (char '\n', rest)
  | 'r' :: rest => some (char '\r', rest)
  | 't' :: rest => some (char '\t', rest)
  | 'u' :: first :: second :: third :: fourth :: rest => do
      let first ← hexValue? first
      let second ← hexValue? second
      let third ← hexValue? third
      let fourth ← hexValue? fourth
      return (ofUnit (((first * 16 + second) * 16 + third) * 16 + fourth), rest)
  | _ => none

/-- An element as it is written between quotes. -/
def written : Element → Text
  | half unit => unicodeEscape unit
  | char c =>
      if c = '"' then ['\\', '"']
      else if c = '\\' then ['\\', '\\']
      else if c = '\x08' then ['\\', 'b']
      else if c = '\x0c' then ['\\', 'f']
      else if c = '\n' then ['\\', 'n']
      else if c = '\r' then ['\\', 'r']
      else if c = '\t' then ['\\', 't']
      else if c.toNat < 0x20 then unicodeEscape c.toNat
      else [c]
where
  /-- The escape of a code unit. -/
  unicodeEscape (unit : Nat) : Text :=
    ['\\', 'u', hexDigit (unit / 4096 % 16), hexDigit (unit / 256 % 16), hexDigit (unit / 16 % 16),
      hexDigit (unit % 16)]

/-- The character of an element that is one. -/
def char? : Element → Option Char
  | char c => some c
  | half _ => none

/-- Reading an escape leaves the end of the text. -/
theorem readEscape?_suffix {text behind : Text} {element : Element}
    (read : readEscape? text = some (element, behind)) : behind <:+ text := by
  unfold readEscape? at read
  split at read <;>
    simp only [Option.bind_eq_bind, Option.pure_def, Option.bind_eq_some_iff, Option.some.injEq,
      Prod.mk.injEq, reduceCtorEq] at read
  case h_9 first second third fourth rest =>
    obtain ⟨_, _, _, _, _, _, _, _, _, rfl⟩ := read
    exact ⟨['u', first, second, third, fourth], rfl⟩
  all_goals
    obtain ⟨_, rfl⟩ := read
    exact List.suffix_cons _ _

end Element

namespace Literal

/-- Joins the halves of surrogate pairs that stand next to each other. -/
def joinHalves : Literal → Literal
  | [] => []
  | .char c :: rest => .char c :: joinHalves rest
  | [.half unit] => [.half unit]
  | .half first :: .char c :: rest => .half first :: .char c :: joinHalves rest
  | .half first :: .half second :: rest =>
      if first < 0xDC00 ∧ 0xDC00 ≤ second then
        .char (Char.ofNat (0x10000 + (first - 0xD800) * 0x400 + (second - 0xDC00))) ::
          joinHalves rest
      else .half first :: joinHalves (.half second :: rest)

/-- Reads the elements up to the closing quote, which stand behind the opening one. -/
def readElements? : Text → Option (Literal × Text)
  | [] => none
  | c :: rest =>
      if c = '"' then some ([], rest)
      else if c = '\\' then
        match _ : Element.readEscape? rest with
        | none => none
        | some (element, behind) =>
            (readElements? behind).map fun (elements, behind) => (element :: elements, behind)
      else if c.toNat < 0x20 then none
      else (readElements? rest).map fun (elements, behind) => (.char c :: elements, behind)
termination_by text => text.length
decreasing_by
  · rename_i read
    exact Nat.lt_succ_of_le (Element.readEscape?_suffix read).length_le
  · exact Nat.lt_succ_self _

/-- Reads a string behind its opening quote. -/
def read? (text : Text) : Option (Literal × Text) :=
  (readElements? text).map fun (elements, behind) => (joinHalves elements, behind)

/-- The string with a given text. -/
def ofText (text : Text) : Literal :=
  text.map .char

/-- The text of a string that is one. -/
def text? (literal : Literal) : Option Text :=
  literal.mapM Element.char?

/-- A string as it is written, with its quotes. -/
def written (literal : Literal) : Text :=
  '"' :: (literal.flatMap Element.written ++ ['"'])

/-- Reading the elements of a string takes something. -/
theorem readElements?_isRestOf {text behind : Text} {elements : Literal}
    (read : readElements? text = some (elements, behind)) : behind.IsRestOf text := by
  fun_induction readElements? text generalizing elements with
  | case1 => simp at read
  | case2 rest =>
      simp only [Option.some.injEq, Prod.mk.injEq] at read
      obtain ⟨_, rfl⟩ := read
      exact Text.IsRestOf.cons _ (List.suffix_refl _)
  | case3 => simp at read
  | case4 rest element middle escaped _ ih =>
      simp only [Option.map_eq_some_iff, Prod.exists, Prod.mk.injEq] at read
      obtain ⟨_, _, read, _, rfl⟩ := read
      exact Text.IsRestOf.cons _ ((ih read).1.trans (Element.readEscape?_suffix escaped))
  | case5 => simp at read
  | case6 c rest _ _ _ ih =>
      simp only [Option.map_eq_some_iff, Prod.exists, Prod.mk.injEq] at read
      obtain ⟨_, _, read, _, rfl⟩ := read
      exact Text.IsRestOf.cons _ (ih read).1

/-- Reading a string takes something. -/
theorem read?_isRestOf {text behind : Text} {literal : Literal}
    (read : read? text = some (literal, behind)) : behind.IsRestOf text := by
  simp only [read?, Option.map_eq_some_iff, Prod.exists, Prod.mk.injEq] at read
  obtain ⟨_, _, read, _, rfl⟩ := read
  exact readElements?_isRestOf read

end Literal

end NoteQuery.Json
