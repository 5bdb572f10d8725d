import NoteQuery.Command.Report

/-! # Compiling the queries of a file

Each line of a file that is neither blank nor a comment is a query. The queries are compiled one by
one; those that cannot be compiled are reported with their lines.
-/

namespace NoteQuery.Command

/-- Whether a line without blanks at its start is a comment. -/
def isComment (line : Text) : Bool :=
  ['/', '/'].isPrefixOf line

/-- A query of a file and the number of its line. -/
structure QueryLine where
  line : Nat
  source : Text
  deriving DecidableEq, Repr

/-- The queries of a text, without the blanks around them. Lines are counted from one. -/
def queryLines (text : Text) : List QueryLine :=
  ((text.lines.zipIdx 1).map fun (line, number) => { line := number, source := line.trim }).filter
    fun query => !query.source.isEmpty && !isComment query.source

namespace QueryLine

/-- The compiled query, if it can be compiled. -/
def compiled? (query : QueryLine) : Option CompiledQuery :=
  match Descriptor.compile query.source with
  | .ok descriptor => some { source := query.source, line := some query.line, descriptor }
  | .error _ => none

/-- The message about a query that cannot be compiled. -/
def error? (query : QueryLine) : Option Message :=
  match Descriptor.compile query.source with
  | .ok _ => none
  | .error error => some ⟨.error, "line " ++ toString query.line ++ ": " ++ error.message⟩

end QueryLine

/-- The report on the queries in the text of a file. -/
def batchText (path : String) (text : Text) : Report :=
  let queries := queryLines text
  let compiled := queries.filterMap QueryLine.compiled?
  let outcome : Message :=
    if queries.isEmpty then ⟨.warning, "No queries found in " ++ path⟩
    else
      ⟨.info, "Compiled " ++ toString compiled.length ++ " of " ++ toString queries.length ++
        " queries"⟩
  { compiled, messages := queries.filterMap QueryLine.error? ++ [outcome] }

/-- The text of a file with given bytes, which must be there and must be UTF-8. -/
def textOfFile (bytes : Option ByteArray) : Except Failure Text :=
  match bytes >>= String.fromUTF8? with
  | some content => .ok content.toList
  | none => .error .file

/-- Compiles the queries of a file. -/
def batch (path : String) (bytes : Option ByteArray) : Except Failure Report := do
  let text ← textOfFile bytes
  return batchText path text

end NoteQuery.Command
