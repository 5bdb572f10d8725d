import NoteQuery.Query.Descriptor

/-! # Listings of compiled queries

A listing shows a compiled query line by line: first its clauses, then its references in the form in
which they are written in a query. Each line has a label.
-/

namespace NoteQuery

/-- A line of a listing. -/
structure ListingLine where
  label : Text
  content : Text
  deriving DecidableEq, Repr

namespace ListingLine

/-- The label, filled up with blanks to eight characters. -/
def paddedLabel (line : ListingLine) : Text :=
  line.label ++ List.replicate (8 - line.label.length) ' '

end ListingLine

namespace Descriptor

/-- The lines that show the clauses. -/
def clauseLines (descriptor : Descriptor) : List ListingLine :=
  descriptor.filter.toList.map (⟨"filter".toList, ·⟩) ++
    descriptor.order.toList.map (⟨"order".toList, ·⟩) ++
    descriptor.groupings.map fun grouping => ⟨"group".toList, grouping.written⟩

/-- The lines that show the references, labelled with their placeholders. -/
def referenceLines (descriptor : Descriptor) : List ListingLine :=
  (descriptor.tagReferences.zipIdx.map fun (reference, number) =>
      ⟨Placeholder.tag.numbered number, reference.written⟩) ++
    descriptor.attributeReferences.zipIdx.map fun (reference, number) =>
      ⟨Placeholder.attribute.numbered number, reference.written⟩

/-- All lines of a listing. -/
def listing (descriptor : Descriptor) : List ListingLine :=
  descriptor.clauseLines ++ descriptor.referenceLines

end Descriptor

end NoteQuery
