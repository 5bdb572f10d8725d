import NoteQuery.Text.Blank

/-! # Names in references

A reference names something, perhaps inside a space. A name is spelled plainly, as in `Space.Name`,
where both are words, or in brackets, as in `[My Space.My Name]`, where blanks are allowed. Reading
a name takes the longest words there are, and it always takes something
(`QualifiedName.read?_isRestOf`).
-/

namespace NoteQuery

/-- The two spellings of a name. -/
inductive Spelling where
  | plain
  | bracketed
  deriving DecidableEq, Repr

/-- A name, perhaps inside a space. -/
structure QualifiedName where
  space : Option Text
  name : Text
  deriving DecidableEq, Repr

namespace QualifiedName

/-- Reads `Name` or `Space.Name`. The second form is taken only where `qualifies` accepts the text
behind it. -/
def readPlain? (qualifies : Text → Bool) (text : Text) : Option (QualifiedName × Text) :=
  match Text.run? isWord text with
  | none => none
  | some (first, '.' :: rest) =>
      match Text.run? isWord rest with
      | some (second, behind) =>
          if qualifies behind then some (⟨some first, second⟩, behind)
          else some (⟨none, first⟩, '.' :: rest)
      | none => some (⟨none, first⟩, '.' :: rest)
  | some (first, rest) => some (⟨none, first⟩, rest)

/-- Reads `[Name]` or `[Space.Name]`. -/
def readBracketed? : Text → Option (QualifiedName × Text)
  | '[' :: text =>
      match Text.run? isWordOrBlank text with
      | some (name, ']' :: behind) => some (⟨none, name⟩, behind)
      | some (space, '.' :: rest) =>
          match Text.run? isWordOrBlank rest with
          | some (name, ']' :: behind) => some (⟨some space, name⟩, behind)
          | _ => none
      | _ => none
  | _ => none

/-- Reads a name in one of the spellings. -/
def read? (spelling : Spelling) (qualifies : Text → Bool) (text : Text) :
    Option (QualifiedName × Text) :=
  match spelling with
  | .plain => readPlain? qualifies text
  | .bracketed => readBracketed? text

/-- Reading a plain name takes something. -/
theorem readPlain?_isRestOf {qualifies : Text → Bool} {text behind : Text} {name : QualifiedName}
    (read : readPlain? qualifies text = some (name, behind)) : behind.IsRestOf text := by
  unfold readPlain? at read
  split at read
  · simp at read
  · rename_i first rest front
    have outer := Text.isRestOf_of_run? front
    split at read
    · rename_i second more back
      have inner := (Text.isRestOf_of_run? back).1.trans (List.suffix_cons '.' rest)
      split at read <;> simp only [Option.some.injEq, Prod.mk.injEq] at read <;>
        obtain ⟨_, rfl⟩ := read
      · exact outer.of_suffix inner
      · exact outer
    · simp only [Option.some.injEq, Prod.mk.injEq] at read
      obtain ⟨_, rfl⟩ := read
      exact outer
  · rename_i first rest _ front
    simp only [Option.some.injEq, Prod.mk.injEq] at read
    obtain ⟨_, rfl⟩ := read
    exact Text.isRestOf_of_run? front

/-- Reading a name in brackets takes something. -/
theorem readBracketed?_isRestOf {text behind : Text} {name : QualifiedName}
    (read : readBracketed? text = some (name, behind)) : behind.IsRestOf text := by
  unfold readBracketed? at read
  split at read
  · rename_i text
    split at read
    · rename_i first more front
      simp only [Option.some.injEq, Prod.mk.injEq] at read
      obtain ⟨_, rfl⟩ := read
      exact Text.IsRestOf.cons _ ((List.suffix_cons _ _).trans (Text.isRestOf_of_run? front).1)
    · rename_i first rest front
      split at read
      · rename_i second more back
        simp only [Option.some.injEq, Prod.mk.injEq] at read
        obtain ⟨_, rfl⟩ := read
        have inner := (Text.isRestOf_of_run? front).1
        exact Text.IsRestOf.cons _ ((List.suffix_cons ']' more).trans
          ((Text.isRestOf_of_run? back).1.trans ((List.suffix_cons '.' rest).trans inner)))
      · simp at read
    · simp at read
  · simp at read

/-- Reading a name takes something. -/
theorem read?_isRestOf {spelling : Spelling} {qualifies : Text → Bool} {text behind : Text}
    {name : QualifiedName} (read : read? spelling qualifies text = some (name, behind)) :
    behind.IsRestOf text := by
  cases spelling with
  | plain => exact readPlain?_isRestOf read
  | bracketed => exact readBracketed?_isRestOf read

/-- The name as one text, with a dot behind the space. -/
def joined (name : QualifiedName) : Text :=
  match name.space with
  | some space => space ++ '.' :: name.name
  | none => name.name

/-- The name as it is written in a query: in brackets when it holds a blank. -/
def written (name : QualifiedName) : Text :=
  if name.joined.any isBlank then '[' :: (name.joined ++ [']']) else name.joined

end QualifiedName

end NoteQuery
