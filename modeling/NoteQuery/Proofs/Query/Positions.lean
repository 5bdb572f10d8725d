import NoteQuery.Proofs.Reference.Reached

/-! # Where errors point

The position of an error counts the bytes in front of a delimiter that stays open, in a text that a
pass over the part named by the error receives (`Descriptor.pointsInto_of_compile`). Errors of tag
filters are the exception: a data filter in them that stays open is found by a pass over a fragment,
and its position counts the bytes in that fragment.
-/

namespace NoteQuery

open AttributeHead (filtersOpening)
open Delimiters (braces)

namespace Text

theorem utf8Size_append (front behind : Text) :
    (front ++ behind).utf8Size = front.utf8Size + behind.utf8Size := by
  induction front with
  | nil => simp [utf8Size]
  | cons c front ih =>
      simp only [utf8Size, List.cons_append, List.foldr_cons] at ih ⊢
      rw [ih, Nat.add_assoc]

theorem bytesBefore_append (front behind : Text) :
    (front ++ behind).bytesBefore behind = front.utf8Size := by
  rw [bytesBefore, utf8Size_append, Nat.add_sub_cancel]

end Text

/-- A text starts with a delimiter of this kind that is not closed in it. -/
def OpenDelimiter.StaysOpen : OpenDelimiter → Text → Prop
  | .tagFilters, text => ∃ inside, text = filtersOpening ++ inside ∧ ')' ∉ inside
  | .dataFilter, text => ∃ inside, text = '{' :: inside ∧ braces.Matched 0 inside

/-- In a text, the delimiter that an error complains about stands behind as many bytes as the error
says, and it is not closed. -/
def QueryError.PointsInto (error : QueryError) (text : Text) : Prop :=
  ∃ front behind, text = front ++ behind ∧ front.utf8Size = error.position ∧
    error.unclosed.StaysOpen behind

namespace QueryError

/-- An error points to a place when its position counts the bytes in front of it. -/
theorem pointsInto_of_suffix {error : QueryError} {text behind : Text} (suffix : behind <:+ text)
    (position : error.position = text.bytesBefore behind)
    (open' : error.unclosed.StaysOpen behind) : error.PointsInto text := by
  obtain ⟨front, rfl⟩ := suffix
  exact ⟨front, behind, rfl, by rw [position, Text.bytesBefore_append], open'⟩

end QueryError

/-- The error of a pass for tags points into the text that the pass receives. -/
theorem TagReference.pointsInto_of_failure {spelling : Spelling} {text : Text} {error : QueryError}
    (failed : (scan spelling text).failure = some error) :
    error.unclosed = .dataFilter ∧ error.PointsInto text := by
  obtain ⟨tag, inside, comes, matched, rfl⟩ := failure_scan_eq_some_iff.mp failed
  exact ⟨rfl, QueryError.pointsInto_of_suffix comes.suffix rfl ⟨inside, rfl, matched⟩⟩

namespace AttributeReference

variable {spelling : Spelling} {text : Text} {error : QueryError}

/-- An error points into one of the texts that the passes over the tag filters of an attribute
receive, to which a pass comes. -/
def PointsIntoFilters (spelling : Spelling) (text : Text) (error : QueryError) : Prop :=
  ∃ head body behind, ComesTo spelling text head (filtersOpening ++ (body ++ ')' :: behind)) ∧
    ')' ∉ body ∧ ∃ nested fragment, FiltersReceive body nested fragment ∧ error.PointsInto fragment

/-- The error of a pass for attributes points into the text that the pass receives, or it is that of
a data filter and points into a fragment of tag filters. -/
theorem pointsInto_of_failure (failed : (scan spelling text).failure = some error) :
    error.unclosed = .tagFilters ∧ error.PointsInto text ∨
      error.unclosed = .dataFilter ∧ PointsIntoFilters spelling text error := by
  obtain ⟨head, inside, comes, ⟨unclosed, rfl⟩ | ⟨body, behind, rfl, free, failed⟩⟩ :=
    failure_scan_eq_some_iff.mp failed
  · exact .inl ⟨rfl, QueryError.pointsInto_of_suffix comes.suffix rfl ⟨inside, rfl, unclosed⟩⟩
  · obtain ⟨nested, fragment, received, failed⟩ := exists_failure_of_readTagFilters failed
    obtain ⟨filter, points⟩ := TagReference.pointsInto_of_failure failed
    exact .inr ⟨filter, head, body, behind, comes, free, nested, fragment, received, points⟩

end AttributeReference

namespace Descriptor

/-- Whether the tags of all parts of a query can be extracted. -/
def TagsExtracted (query : Text) : Prop :=
  ∃ result, Extractor.onParts TagReference.extract (Outline.ofQuery query).parts [] = .ok result

variable {query : Text} {error : QueryError}

/-- **An error points at the delimiter that it complains about.** When the tags cannot be extracted,
and when tag filters are not closed, the position of the error is a place in a text that a pass over
the part receives, and the delimiter stands there and is not closed. Otherwise a data filter in tag
filters is not closed, and the position is a place in a text that a pass over a fragment of these
receives. -/
theorem pointsInto_of_compile (failed : compile query = .error error) :
    (¬ TagsExtracted query ∨ error.unclosed = .tagFilters →
      ∃ kind spelling text, Receives query error.part kind spelling text ∧
        error.PointsInto text) ∧
    (TagsExtracted query → error.unclosed = .dataFilter →
      ∃ spelling text, Receives query error.part .attribute spelling text ∧
        AttributeReference.PointsIntoFilters spelling text error) := by
  obtain ⟨kind, spelling, text, found, received, ended, same⟩ :=
    exists_passFailure_of_compile failed
  have unclosed : error.unclosed = found.unclosed := by rw [same]; rfl
  have points (place : Text) (points : found.PointsInto place) : error.PointsInto place := by
    rw [same]
    exact points
  cases received with
  | tags received =>
      constructor
      · intro _
        exact ⟨.tag, spelling, text, .tags received,
          points _ (TagReference.pointsInto_of_failure ended).2⟩
      · rintro ⟨result, extracted⟩
        have unfailed : (TagReference.scan spelling text).failure = none :=
          received.unfailed extracted rfl
        rw [passFailure, unfailed] at ended
        cases ended
  | attributes extracted received =>
      rcases AttributeReference.pointsInto_of_failure ended with
        ⟨filters, here⟩ | ⟨filter, head, body, behind, comes, free, nested, fragment, inside, here⟩
      · constructor
        · intro _
          exact ⟨.attribute, spelling, text, .attributes extracted received, points _ here⟩
        · intro _ other
          rw [unclosed, filters] at other
          cases other
      · constructor
        · rintro (untagged | other)
          · exact (untagged ⟨_, extracted⟩).elim
          · rw [unclosed, filter] at other
            cases other
        · intro _ _
          exact ⟨spelling, text, .attributes extracted received, head, body, behind, comes, free,
            nested, fragment, inside, points _ here⟩

/-- The position counts bytes and not characters, and in tag filters those of a fragment behind its
tilde. -/
theorem pointsInto_of_compile_open :
    (∃ kind spelling text, Receives "x ORDER BY é @a.On(b".toList .order kind spelling text ∧
        QueryError.PointsInto ⟨.tagFilters, ['a'], 5, .order⟩ text) ∧
      ∃ spelling text, Receives "@a.On(c|b\x7b)".toList .filter .attribute spelling text ∧
        AttributeReference.PointsIntoFilters spelling text ⟨.dataFilter, ['b'], 2, .filter⟩ := by
  have refused : compile "x ORDER BY é @a.On(b".toList =
      .error ⟨.tagFilters, ['a'], 5, .order⟩ := by decide +kernel
  have nested : compile "@a.On(c|b\x7b)".toList = .error ⟨.dataFilter, ['b'], 2, .filter⟩ := by
    decide +kernel
  have tagged : TagsExtracted "@a.On(c|b\x7b)".toList :=
    ⟨([(.filter, "@a.On(c|b\x7b)".toList)], []), by decide +kernel⟩
  exact ⟨(pointsInto_of_compile refused).1 (.inr rfl), (pointsInto_of_compile nested).2 tagged rfl⟩

/-- The brace that is not closed stands behind seven bytes of the clause, but behind two of the
fragment. -/
theorem not_pointsInto_of_fragment :
    compile "@a.On(t\x7b)".toList = .error ⟨.dataFilter, ['t'], 2, .filter⟩ ∧
      ¬ ∃ kind spelling text, Receives "@a.On(t\x7b)".toList .filter kind spelling text ∧
        QueryError.PointsInto ⟨.dataFilter, ['t'], 2, .filter⟩ text := by
  refine ⟨by decide +kernel, ?_⟩
  have parts : (Outline.ofQuery "@a.On(t\x7b)".toList).parts =
      [(.filter, "@a.On(t\x7b)".toList)] := by decide +kernel
  have extracted : Extractor.onParts TagReference.extract
      (Outline.ofQuery "@a.On(t\x7b)".toList).parts [] =
        .ok ([(.filter, "@a.On(t\x7b)".toList)], []) := by decide +kernel
  -- All passes receive the clause as it is, and the plain pass for attributes is the last one.
  have unchanged : ∀ kind spelling text,
      Receives "@a.On(t\x7b)".toList .filter kind spelling text → text = "@a.On(t\x7b)".toList := by
    intro kind spelling text received
    cases received with
    | tags received =>
        rw [parts] at received
        cases received with
        | here received =>
            cases received with
            | plain => rfl
            | bracketed => decide +kernel
        | later _ received => cases received
    | attributes tagged received =>
        rw [extracted] at tagged
        cases tagged
        cases received with
        | here received =>
            cases received with
            | plain => rfl
            | bracketed unfailed =>
                have failed : (AttributeReference.phase.scan .plain
                    "@a.On(t\x7b)".toList).failure ≠ none := by decide +kernel
                exact (failed unfailed).elim
        | later _ received => cases received
  rintro ⟨kind, spelling, text, received, front, behind, whole, counted, inside, rfl, _⟩
  rw [unchanged _ _ _ received] at whole
  have places : ∀ front ∈ "@a.On(t\x7b)".toList.inits,
      Text.utf8Size front = 2 → front = ['@', 'a'] := by
    decide +kernel
  rw [places front ((List.mem_inits _ _).mpr ⟨_, whole.symm⟩) counted] at whole
  cases whole

end Descriptor

end NoteQuery
