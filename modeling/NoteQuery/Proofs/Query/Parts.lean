import NoteQuery.Query.Descriptor

/-! # The parts of a query

The clauses of an outline, each with the part of the query that it is. Rewriting an outline is
rewriting its parts one after the other (`Extractor.onOutline_parts`), so compiling a query is
running over the parts twice, for the tags and then for the attributes
(`Descriptor.compile_parts`).
-/

namespace NoteQuery

/-- The groupings from a given number on as parts of a query. -/
def Grouping.partsFrom (next : Nat) : List Grouping → List (QueryPart × Text)
  | [] => []
  | grouping :: rest => (.grouping next, grouping.criteria) :: partsFrom (next + 1) rest

/-- The parts of a query that has a given outline. -/
def Outline.parts (outline : Outline) : List (QueryPart × Text) :=
  outline.filter.toList.map (QueryPart.filter, ·) ++
    (outline.order.toList.map (QueryPart.order, ·) ++ Grouping.partsFrom 1 outline.groupings)

theorem Grouping.map_snd_partsFrom (next : Nat) (groupings : List Grouping) :
    (partsFrom next groupings).map Prod.snd = groupings.map Grouping.criteria := by
  induction groupings generalizing next with
  | nil => rfl
  | cons grouping rest ih => simp only [partsFrom, List.map_cons, ih]

theorem Outline.map_snd_parts (outline : Outline) :
    outline.parts.map Prod.snd = outline.clauses := by
  simp [parts, clauses, Grouping.map_snd_partsFrom, Function.comp_def]

namespace Extractor

variable {Record : Type} (extractor : Extractor Record)

/-- Rewrites the parts of a query, one after the other, and collects the records of all. -/
def onParts : List (QueryPart × Text) → List Record →
    Except QueryError (List (QueryPart × Text) × List Record)
  | [], known => .ok ([], known)
  | (part, clause) :: rest, known =>
      match extractor.onClause part clause known with
      | .error error => .error error
      | .ok (rewritten, records) =>
          match onParts rest records with
          | .error error => .error error
          | .ok (more, records) => .ok ((part, rewritten) :: more, records)

/-- Parts are rewritten together when the first ones are rewritten and then the others. -/
theorem onParts_append (first second : List (QueryPart × Text)) (known : List Record) :
    extractor.onParts (first ++ second) known = do
      let (front, records) ← extractor.onParts first known
      let (back, records) ← extractor.onParts second records
      return (front ++ back, records) := by
  induction first generalizing known with
  | nil =>
      cases back : extractor.onParts second known with
      | error error => simp [onParts, back, bind, Except.bind]
      | ok result => simp [onParts, back, bind, Except.bind, pure, Except.pure]
  | cons part rest ih =>
      simp only [List.cons_append, onParts]
      cases extractor.onClause part.1 part.2 known with
      | error error => rfl
      | ok result =>
          simp only [ih]
          cases extractor.onParts rest result.2 with
          | error error => rfl
          | ok front =>
              simp only [bind, Except.bind]
              cases extractor.onParts second front.2 <;> rfl

/-- A clause that may be absent is rewritten as a list of parts. -/
theorem onOption_parts (part : QueryPart) (clause : Option Text) (known : List Record) :
    (extractor.onOption part clause known).map
        (fun result => (result.1.toList.map (part, ·), result.2)) =
      extractor.onParts (clause.toList.map (part, ·)) known := by
  cases clause with
  | none => rfl
  | some clause =>
      simp only [onOption, Option.toList_some, List.map_cons, List.map_nil, onParts]
      cases extractor.onClause part clause known <;> rfl

/-- Groupings are rewritten as a list of parts. -/
theorem onGroupings_parts (next : Nat) (groupings : List Grouping) (known : List Record) :
    (extractor.onGroupings next groupings known).map
        (fun result => (Grouping.partsFrom next result.1, result.2)) =
      extractor.onParts (Grouping.partsFrom next groupings) known := by
  induction groupings generalizing next known with
  | nil => rfl
  | cons grouping rest ih =>
      simp only [onGroupings, Grouping.partsFrom, onParts]
      cases extractor.onClause (.grouping next) grouping.criteria known with
      | error error => rfl
      | ok result =>
          simp only [bind, Except.bind, ← ih (next + 1)]
          cases extractor.onGroupings (next + 1) rest result.2 <;> rfl

/-- An outline is rewritten by rewriting its parts. -/
theorem onOutline_parts (outline : Outline) :
    (extractor.onOutline outline).map (fun result => (result.1.parts, result.2)) =
      extractor.onParts outline.parts [] := by
  simp only [Outline.parts, onParts_append, ← onOption_parts, ← onGroupings_parts, onOutline]
  cases extractor.onOption .filter outline.filter [] with
  | error error => rfl
  | ok filter =>
      simp only [bind, Except.bind, Except.map]
      cases extractor.onOption .order outline.order filter.2 with
      | error error => rfl
      | ok order =>
          dsimp only
          cases extractor.onGroupings 1 outline.groupings order.2 <;> rfl

end Extractor

/-- A query is compiled by rewriting its parts for the tags and then for the attributes. -/
theorem Descriptor.compile_parts (query : Text) :
    (compile query).map
        (fun descriptor => (descriptor.toOutline.parts, descriptor.tagReferences,
          descriptor.attributeReferences)) = do
      let (tagged, tags) ← Extractor.onParts TagReference.extract (Outline.ofQuery query).parts []
      let (parts, attributes) ← Extractor.onParts AttributeReference.extract tagged []
      return (parts, tags, attributes) := by
  simp only [compile, ← Extractor.onOutline_parts]
  cases Extractor.onOutline TagReference.extract (.ofQuery query) with
  | error error => rfl
  | ok tagged =>
      simp only [bind, Except.bind, Except.map, ← Extractor.onOutline_parts]
      cases Extractor.onOutline AttributeReference.extract tagged.1 <;> rfl

end NoteQuery
