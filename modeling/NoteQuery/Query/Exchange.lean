import NoteQuery.Json.Reader
import NoteQuery.Json.Writer
import NoteQuery.Query.Descriptor

/-! # Compiled queries as JSON

The JSON form of a compiled query and of its records. Absent values are `null`, but the data filter
of a tag and the list of groupings are left out when there is none. Reading accepts what writing
produces and the other forms of a record that `Json.Value.fields?` knows.
-/

namespace NoteQuery

open Json

namespace DataFilter

/-- A data filter as a JSON value. -/
def toJson (filter : DataFilter) : Value :=
  .record [("pattern", .ofText filter.pattern), ("exps", .ofList .ofText filter.expressions)]

/-- The data filter that a JSON value shows. -/
def ofJson? (value : Value) : Option DataFilter := do
  let fields ← value.fields? ["pattern", "exps"] 2
  let pattern ← fields.required? "pattern" Value.text?
  let expressions ← fields.required? "exps" (Value.list? Value.text?)
  return { pattern, expressions }

end DataFilter

namespace TagReference

/-- A tag reference as a JSON value. -/
def toJson (reference : TagReference) : Value :=
  .record <| [("space", .ofOption .ofText reference.space), ("name", .ofText reference.name),
      ("searchDepth", .ofNat reference.searchDepth),
      ("strictSearchDepth", .bool reference.strictSearchDepth),
      ("includeOwner", .bool reference.includeOwner)] ++
    reference.filter.toList.map fun filter => ("filter", filter.toJson)

/-- The tag reference that a JSON value shows. -/
def ofJson? (value : Value) : Option TagReference := do
  let fields ← value.fields?
    ["space", "name", "searchDepth", "strictSearchDepth", "includeOwner", "filter"] 5
  let space ← fields.option? "space" Value.text?
  let name ← fields.required? "name" Value.text?
  let searchDepth ← fields.required? "searchDepth" Value.nat?
  let strictSearchDepth ← fields.required? "strictSearchDepth" Value.bool?
  let includeOwner ← fields.required? "includeOwner" Value.bool?
  let filter ← fields.option? "filter" DataFilter.ofJson?
  return { space, name, searchDepth, strictSearchDepth, includeOwner, filter }

end TagReference

namespace AttributeReference

/-- An attribute reference as a JSON value. -/
def toJson (reference : AttributeReference) : Value :=
  .record [("space", .ofOption .ofText reference.space), ("name", .ofText reference.name),
    ("exists", .bool reference.mustExist),
    ("tagFilters", .ofOption (.ofList TagReference.toJson) reference.tagFilters)]

/-- The attribute reference that a JSON value shows. -/
def ofJson? (value : Value) : Option AttributeReference := do
  let fields ← value.fields? ["space", "name", "exists", "tagFilters"] 4
  let space ← fields.option? "space" Value.text?
  let name ← fields.required? "name" Value.text?
  let mustExist ← fields.required? "exists" Value.bool?
  let tagFilters ← fields.option? "tagFilters" (Value.list? TagReference.ofJson?)
  return { space, name, mustExist, tagFilters }

end AttributeReference

namespace Grouping

/-- A grouping as a JSON value. -/
def toJson (grouping : Grouping) : Value :=
  .record [("criteria", .ofText grouping.criteria), ("name", .ofOption .ofText grouping.name)]

/-- The grouping that a JSON value shows. -/
def ofJson? (value : Value) : Option Grouping := do
  let fields ← value.fields? ["criteria", "name"] 2
  let criteria ← fields.required? "criteria" Value.text?
  let name ← fields.option? "name" Value.text?
  return { criteria, name }

end Grouping

namespace Descriptor

/-- A compiled query as a JSON value. -/
def toJson (descriptor : Descriptor) : Value :=
  .record <| [("filterClause", .ofOption .ofText descriptor.filter),
      ("orderClause", .ofOption .ofText descriptor.order)] ++
    (if descriptor.groupings.isEmpty then []
      else [("groupings", .ofList Grouping.toJson descriptor.groupings)]) ++
    [("tagReferences", .ofList TagReference.toJson descriptor.tagReferences),
      ("attrReferences", .ofList AttributeReference.toJson descriptor.attributeReferences)]

/-- The compiled query that a JSON value shows. -/
def ofJson? (value : Value) : Option Descriptor := do
  let fields ← value.fields?
    ["filterClause", "orderClause", "groupings", "tagReferences", "attrReferences"] 5
  let filter ← fields.option? "filterClause" Value.text?
  let order ← fields.option? "orderClause" Value.text?
  let groupings ← fields.default? "groupings" [] (Value.list? Grouping.ofJson?)
  let tagReferences ← fields.required? "tagReferences" (Value.list? TagReference.ofJson?)
  let attributeReferences ←
    fields.required? "attrReferences" (Value.list? AttributeReference.ofJson?)
  return { filter, order, groupings, tagReferences, attributeReferences }

/-- The JSON text of a compiled query. -/
def render (layout : Layout) (descriptor : Descriptor) : Text :=
  descriptor.toJson.render layout

/-- The compiled query in a JSON text. -/
def parse? (text : Text) : Option Descriptor :=
  Value.parse? text >>= ofJson?

end Descriptor

end NoteQuery
