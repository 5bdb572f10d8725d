import NoteQuery.Query.Outline
import NoteQuery.Reference.Attribute

/-! # Compiled queries

Compiling a query gives its outline with placeholders in the place of references, and the records of
these. The tags of all clauses are extracted first, then the attributes; the numbers run on from
clause to clause.
-/

namespace NoteQuery

/-- Moves the references of a clause to a list of records. -/
abbrev Extractor (Record : Type) := Text → List Record → Extraction Record

namespace Extractor

variable {Record : Type}

/-- Rewrites a clause, which is a given part of the query. -/
def onClause (extractor : Extractor Record) (part : QueryPart) (clause : Text)
    (known : List Record) : Except QueryError (Text × List Record) :=
  match extractor clause known with
  | ⟨.ok rewritten, records⟩ => .ok (rewritten, records)
  | ⟨.error error, _⟩ => .error (error.inPart part)

/-- Rewrites a clause that may be absent. -/
def onOption (extractor : Extractor Record) (part : QueryPart) (clause : Option Text)
    (known : List Record) : Except QueryError (Option Text × List Record) :=
  match clause with
  | none => .ok (none, known)
  | some clause => do
      let (rewritten, records) ← extractor.onClause part clause known
      return (some rewritten, records)

/-- Rewrites the criteria of groupings, the first of which has the number `next`. -/
def onGroupings (extractor : Extractor Record) (next : Nat) (groupings : List Grouping)
    (known : List Record) : Except QueryError (List Grouping × List Record) :=
  match groupings with
  | [] => .ok ([], known)
  | grouping :: rest => do
      let (criteria, records) ← extractor.onClause (.grouping next) grouping.criteria known
      let (rest, records) ← extractor.onGroupings (next + 1) rest records
      return ({ grouping with criteria } :: rest, records)

/-- Rewrites the clauses of an outline, one after the other, and collects the records of all. -/
def onOutline (extractor : Extractor Record) (outline : Outline) :
    Except QueryError (Outline × List Record) := do
  let (filter, records) ← extractor.onOption .filter outline.filter []
  let (order, records) ← extractor.onOption .order outline.order records
  let (groupings, records) ← extractor.onGroupings 1 outline.groupings records
  return ({ filter, order, groupings }, records)

end Extractor

/-- A compiled query: `{tagN}` in a clause stands for the tag reference with the number N, and
`{attrN}` for the attribute reference with that number. -/
structure Descriptor extends Outline where
  tagReferences : List TagReference
  attributeReferences : List AttributeReference
  deriving DecidableEq, Repr

namespace Descriptor

/-- Compiles a query. -/
def compile (query : Text) : Except QueryError Descriptor := do
  let (tagged, tagReferences) ← Extractor.onOutline TagReference.extract (.ofQuery query)
  let (outline, attributeReferences) ← Extractor.onOutline AttributeReference.extract tagged
  return { outline with tagReferences, attributeReferences }

end Descriptor

end NoteQuery
