import NoteQuery.Command.Report

/-! # Commands on one query

A query is given as words, which are joined by single blanks. It is compiled, or only checked and
summarised.
-/

namespace NoteQuery.Command

/-- The query given by some words. -/
def joinWords (words : List String) : Except Failure Text :=
  if words.isEmpty then .error .noQuery
  else .ok ([' '].intercalate (words.map String.toList))

/-- Compiles a query. -/
def compile (words : List String) : Except Failure Report := do
  let source ← joinWords words
  let descriptor ← (Descriptor.compile source).mapError .query
  return { compiled := [{ source, line := none, descriptor }] }

/-- A number of things. -/
def counted (count : Nat) (noun : String) : String :=
  toString count ++ " " ++ noun ++ if count = 1 then "" else "s"

/-- What a compiled query consists of. -/
def summary (descriptor : Descriptor) : String :=
  "ok: " ++ counted descriptor.tagReferences.length "tag reference" ++ ", " ++
    counted descriptor.attributeReferences.length "attribute reference" ++
    (if descriptor.order.isSome then ", ordered" else "") ++
    if descriptor.groupings.isEmpty then ""
    else ", " ++ counted descriptor.groupings.length "grouping"

/-- Checks a query and warns when it has no filter. -/
def check (words : List String) : Except Failure Report := do
  let source ← joinWords words
  let descriptor ← (Descriptor.compile source).mapError .query
  let warnings :=
    if descriptor.filter.isNone then [⟨.warning, "Query has no filter clause"⟩] else []
  return { messages := ⟨.success, summary descriptor⟩ :: warnings }

end NoteQuery.Command
