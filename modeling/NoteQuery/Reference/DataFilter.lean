import NoteQuery.Scan
import NoteQuery.Text.Blank

/-! # Data filters

A data filter is the text in braces behind a tag, as in `#Person{.height.meters > 1.8}`. Its
expressions, the paths such as `.height.meters`, are kept apart and replaced by placeholders. The
brace that closes it is searched along the text behind the open one (`DataFilter.close?`), or by a
count from the open one on (`DataFilter.countBraces`).
-/

namespace NoteQuery

/-- A condition on the data of a tag. The pattern has the placeholder `{expN}` where the N-th path
stood; a path is kept without the dot in front. -/
structure DataFilter where
  pattern : Text
  expressions : List Text
  deriving DecidableEq, Repr

namespace DataFilter

/-- The characters of a path. -/
def isPath (c : Char) : Bool :=
  isWord c || c == '[' || c == ']' || c == '.'

/-- The characters that a path may follow. -/
def separates (c : Char) : Bool :=
  isBlank c || c == '('

/-- Cuts the text between the braces into plain characters and paths. A path starts with a dot at
the start of the text or behind a separator, which `separated` tells, and reaches as far as it
can. -/
def pieces (separated : Bool) : Text → List (Piece Text)
  | [] => []
  | c :: rest =>
      if separated && c == '.' then
        match _ : Text.run? isPath rest with
        | some (path, behind) => .reference ('.' :: path) path :: pieces false behind
        | none => .plain c :: pieces false rest
      else .plain c :: pieces (separates c) rest
termination_by text => text.length
decreasing_by
  · rename_i read
    exact Nat.lt_succ_of_lt (Text.isRestOf_of_run? read).2
  all_goals exact Nat.lt_succ_self _

/-- The data filter with a given text between its braces. -/
def ofBody (body : Text) : DataFilter where
  pattern := (Piece.numbered .expression 0 (pieces true body)).trim
  expressions := Piece.records (pieces true body)

/-- Puts paths back in the places of their placeholders, one after the other, the first of which has
the number `next`. -/
def restore (pattern : Text) (next : Nat) : List Text → Text
  | [] => pattern
  | path :: rest =>
      let restored := Text.replace (Placeholder.expression.numbered next) ('.' :: path) pattern
      restore restored (next + 1) rest

/-- The text between the braces of a data filter. -/
def written (filter : DataFilter) : Text :=
  restore filter.pattern 0 filter.expressions

/-- The texts in front of and behind the brace that closes an open one; `inner` counts the braces
opened since. -/
def close? : (inner : Nat) → Text → Option (Text × Text)
  | _, [] => none
  | inner, c :: rest =>
      if c = '{' then (close? (inner + 1) rest).map fun (body, behind) => (c :: body, behind)
      else if c = '}' then
        match inner with
        | 0 => some ([], rest)
        | inner + 1 => (close? inner rest).map fun (body, behind) => (c :: body, behind)
      else (close? inner rest).map fun (body, behind) => (c :: body, behind)

/-- The text behind an open brace consists of the body, the closing brace and the text behind it. -/
theorem close?_eq_some_append {inner : Nat} {text body behind : Text}
    (closed : close? inner text = some (body, behind)) : text = body ++ '}' :: behind := by
  fun_induction close? inner text generalizing body with
  | case1 => simp at closed
  | case2 inner rest ih =>
      simp only [Option.map_eq_some_iff, Prod.exists, Prod.mk.injEq] at closed
      obtain ⟨shorter, _, closed, rfl, rfl⟩ := closed
      simp [ih closed]
  | case3 rest => simp_all
  | case4 rest inner _ ih =>
      simp only [Option.map_eq_some_iff, Prod.exists, Prod.mk.injEq] at closed
      obtain ⟨shorter, _, closed, rfl, rfl⟩ := closed
      simp [ih closed]
  | case5 inner c rest _ _ ih =>
      simp only [Option.map_eq_some_iff, Prod.exists, Prod.mk.injEq] at closed
      obtain ⟨shorter, _, closed, rfl, rfl⟩ := closed
      simp [ih closed]

/-- Closing a brace leaves the end of the text. -/
theorem suffix_of_close? {inner : Nat} {text body behind : Text}
    (closed : close? inner text = some (body, behind)) : behind <:+ text :=
  ⟨body ++ ['}'], by simp [close?_eq_some_append closed]⟩

/-- How counting the open braces along a text ends. -/
inductive BraceCount where
  /-- None is open any more behind the brace that stands at `offset`. -/
  | closed (offset : Nat)
  /-- The text ends before. -/
  | unclosed
  /-- A brace closes where none is open, and the count cannot go down. -/
  | underflow
  deriving DecidableEq, Repr

/-- Counts the open braces along a text, in front of which `depth` of them are open and `offset`
bytes stand. -/
def countBraces (depth offset : Nat) : Text → BraceCount
  | [] => .unclosed
  | c :: rest =>
      if c = '{' then countBraces (depth + 1) (offset + c.utf8Size) rest
      else if c = '}' then
        match depth with
        | 0 => .underflow
        | depth + 1 =>
            if depth = 0 then .closed offset else countBraces depth (offset + c.utf8Size) rest
      else countBraces depth (offset + c.utf8Size) rest

/-- Whether a data filter opens at the start of a text. A placeholder of a tag is none: it is what
became of a tag directly behind another one. -/
def opens (text : Text) : Bool :=
  text.head? == some '{' && !Placeholder.tag.startsText text

end DataFilter

end NoteQuery
