import NoteQuery.Text.Basic

/-! # Styles of terminal output

A styled text stands between an escape sequence that selects the style and one that resets it. Where
the text itself resets the style, the style is selected again.
-/

namespace NoteQuery

/-- How a text is shown on a terminal. -/
inductive Style where
  | bold
  | dimmed
  | red
  | green
  | yellow
  deriving DecidableEq, Repr

namespace Style

/-- The number of a style in an escape sequence. -/
def code : Style → Nat
  | bold => 1
  | dimmed => 2
  | red => 31
  | green => 32
  | yellow => 33

/-- The escape sequence with a given number. -/
def escape (code : Nat) : Text :=
  '\x1b' :: '[' :: (Text.ofNat code ++ ['m'])

/-- The escape sequence that ends every style. -/
def reset : Text :=
  escape 0

/-- A text in a style, or as it is on a terminal without colors. -/
def paint (style : Style) (colored : Bool) (text : Text) : Text :=
  if colored then
    escape style.code ++ Text.replace reset (reset ++ escape style.code) text ++ reset
  else text

end Style

end NoteQuery
