import NoteQuery.Proofs.Reference.Attribute

/-! # Which places attributes own

A place is owned when the text in front of it ends in the head of an attribute reference and tag
filters that are still open. This is what the owned bodies of a clause say
(`OwnedBody.ownedBy_of_owning?`, `OwnedBody.owning?_isSome`), so whether a place is owned does not
depend on the text behind it.
-/

namespace NoteQuery

/-- Whether a text ends in an attribute reference in one spelling, up to a place in its tag
filters. -/
def AttributeHead.OwnedBy (spelling : Spelling) (front : Text) : Prop :=
  ∃ (before : Text) (head : AttributeHead) (inside : Text),
    front = before ++ (head.spelled spelling ++ (filtersOpening ++ inside)) ∧
      head.toQualifiedName.Fits spelling ∧ ')' ∉ inside

namespace OwnedBody

open AttributeHead (OwnedBy filtersOpening)

/-- What stands behind the first closing parenthesis of a text. -/
def behind (text : Text) : Text :=
  match Text.cut? ')' text with
  | some (_, rest) => rest
  | none => []

variable {spelling : Spelling} {text front inside clause : Text} {body : OwnedBody}

/-- A body ends inside the text. -/
theorem behind_suffix (text : Text) : behind text <:+ text := by
  unfold behind
  split
  · rename_i cut
    exact Text.suffix_of_cut? cut
  · exact List.nil_suffix

/-- A body takes something from every text that is not empty. -/
theorem length_behind_lt (filled : text ≠ []) : (behind text).length < text.length := by
  unfold behind
  split
  · rename_i body rest cut
    rw [Text.cut?_eq_some_append cut, List.length_append, List.length_cons]
    omega
  · exact List.length_pos_iff.mpr filled

/-- A text without a closing parenthesis belongs to the body that goes on behind it. -/
theorem behind_append_of_not_mem (unclosed : ')' ∉ front) (text : Text) :
    behind (front ++ text) = behind text := by
  unfold behind
  cases cut : Text.cut? ')' text with
  | none =>
      have absent : ')' ∉ front ++ text := by
        rw [List.mem_append, not_or]
        exact ⟨unclosed, Text.cut?_eq_none_iff.mp cut⟩
      rw [Text.cut?_eq_none_iff.mpr absent]
  | some result =>
      obtain ⟨body, rest⟩ := result
      obtain ⟨whole, open'⟩ := Text.cut?_eq_some_iff.mp cut
      have longer : Text.cut? ')' (front ++ text) = some (front ++ body, rest) := by
        rw [Text.cut?_eq_some_iff, whole, List.append_assoc, List.mem_append, not_or]
        exact ⟨rfl, unclosed, open'⟩
      rw [longer]

/-- A text with a closing parenthesis ends the body, whatever follows. -/
theorem behind_append_of_mem (closed : ')' ∈ front) (text : Text) :
    behind (front ++ text) = behind front ++ text := by
  cases cut : Text.cut? ')' front with
  | none => exact (Text.cut?_eq_none_iff.mp cut closed).elim
  | some result =>
      obtain ⟨body, rest⟩ := result
      obtain ⟨whole, unclosed⟩ := Text.cut?_eq_some_iff.mp cut
      have longer : Text.cut? ')' (front ++ text) = some (body, rest ++ text) := by
        rw [Text.cut?_eq_some_iff, whole, List.append_assoc, List.cons_append]
        exact ⟨rfl, unclosed⟩
      simp only [behind, longer, cut]

/-- A body is owned where a head stands in front of tag filters. -/
theorem read?_eq_some_iff :
    read? spelling text = some body ↔
      ∃ (head : AttributeHead) (inside : Text),
        text = head.spelled spelling ++ (filtersOpening ++ inside) ∧
          head.toQualifiedName.Fits spelling ∧
          body = ⟨(filtersOpening ++ inside).length, (behind inside).length⟩ := by
  constructor
  · intro read
    unfold read? at read
    split at read
    · cases read
    · rename_i head rest front
      obtain ⟨rfl, fits⟩ := AttributeHead.spelled_of_read? front
      split at read
      · cases read
      · rename_i inside opened
        have whole := (List.append_eq_of_isPrefixOf?_eq_some opened).symm
        refine ⟨head, inside, by rw [whole], fits, ?_⟩
        rw [← whole, behind]
        cases cut : Text.cut? ')' inside with
        | none =>
            rw [cut] at read
            cases read
            rfl
        | some result =>
            rw [cut] at read
            cases read
            rfl
  · intro owned
    obtain ⟨head, inside, rfl, fits, rfl⟩ := owned
    have opened : filtersOpening.isPrefixOf? (filtersOpening ++ inside) = some inside :=
      List.isPrefixOf?_eq_some_iff_append_eq.mpr rfl
    simp only [read?, AttributeHead.read?_spelled_opening fits, opened, behind]
    cases Text.cut? ')' inside <;> rfl

/-- The bodies in one spelling are those that are read at the places of the clause. -/
theorem mem_inSpelling_iff :
    body ∈ inSpelling spelling clause ↔
      ∃ place, place <:+ clause ∧ read? spelling place = some body := by
  induction clause with
  | nil =>
      simp only [inSpelling, List.not_mem_nil, false_iff, not_exists, not_and]
      intro place suffix read
      rw [List.suffix_nil.mp suffix] at read
      cases read
  | cons c rest ih =>
      have here (place : Text) : place <:+ c :: rest ↔ place = c :: rest ∨ place <:+ rest :=
        List.suffix_cons_iff
      cases read : read? spelling (c :: rest) with
      | none => simp [inSpelling, read, ih, here, or_and_right, exists_or]
      | some found => simp [inSpelling, read, ih, here, or_and_right, exists_or, eq_comm]

/-- The bodies of a clause are those that are read at its places in either spelling. -/
theorem mem_ofClause_iff :
    body ∈ ofClause clause ↔
      ∃ spelling place, place <:+ clause ∧ read? spelling place = some body := by
  simp only [ofClause, List.mem_append, mem_inSpelling_iff]
  constructor
  · intro found
    rcases found with plain | bracketed
    · exact ⟨.plain, plain⟩
    · exact ⟨.bracketed, bracketed⟩
  · intro found
    obtain ⟨spelling, place⟩ := found
    cases spelling with
    | plain => exact .inl place
    | bracketed => exact .inr place

/-- A place that a body owns stands in the tag filters of an attribute, and the body ends where
these are closed. -/
theorem ownedBy_of_owning? (outside : ∀ c ∈ text.head?, c ∉ filtersOpening)
    (owned : owning? (ofClause (front ++ text)) text.length = some body) :
    (∃ spelling, OwnedBy spelling front) ∧
      text.drop (text.length - body.closing) = behind text := by
  have covered := List.find?_some owned
  obtain ⟨spelling, place, suffix, read⟩ := mem_ofClause_iff.mp (List.mem_of_find?_eq_some owned)
  obtain ⟨head, inside, rfl, fits, rfl⟩ := read?_eq_some_iff.mp read
  simp only [covers, Bool.and_eq_true, decide_eq_true_eq] at covered
  obtain ⟨before, whole⟩ := suffix
  have reaches : text <:+ filtersOpening ++ inside :=
    List.suffix_of_suffix_length_le (List.suffix_append front text)
      (whole ▸ (List.suffix_append _ _).trans (List.suffix_append _ _)) covered.2
  -- The place is not in the opening of the tag filters, so it is in the filters themselves.
  obtain ⟨within, rfl⟩ : ∃ within, inside = within ++ text := by
    obtain ⟨start, same⟩ := reaches
    rcases List.append_eq_append_iff.mp same with ⟨cut, opening, rfl⟩ | ⟨within, _, rfl⟩
    · cases cut with
      | nil => exact ⟨[], rfl⟩
      | cons c cut =>
          refine (outside c rfl ?_).elim
          rw [opening]
          simp
    · exact ⟨within, rfl⟩
  have unclosed : ')' ∉ within := by
    intro closed
    rw [behind_append_of_mem closed, List.length_append] at covered
    omega
  rw [behind_append_of_not_mem unclosed]
  refine ⟨⟨spelling, before, head, within, ?_, fits, unclosed⟩,
    (List.suffix_iff_eq_drop.mp (behind_suffix text)).symm⟩
  refine (List.append_left_inj text).mp ?_
  rw [← whole]
  simp only [List.append_assoc]

/-- A place in the tag filters of an attribute is owned by a body. -/
theorem owning?_isSome (owned : OwnedBy spelling front) (filled : text ≠ []) :
    (owning? (ofClause (front ++ text)) text.length).isSome := by
  obtain ⟨before, head, within, rfl, fits, unclosed⟩ := owned
  have read : read? spelling (head.spelled spelling ++ (filtersOpening ++ (within ++ text))) =
      some ⟨(filtersOpening ++ (within ++ text)).length, (behind (within ++ text)).length⟩ :=
    read?_eq_some_iff.mpr ⟨head, within ++ text, rfl, fits, rfl⟩
  rw [owning?, List.find?_isSome]
  refine ⟨_, mem_ofClause_iff.mpr ⟨spelling, _, ⟨before, ?_⟩, read⟩, ?_⟩
  · simp only [List.append_assoc]
  · have shorter := length_behind_lt filled
    simp only [covers, behind_append_of_not_mem unclosed, List.length_append, Bool.and_eq_true,
      decide_eq_true_eq]
    omega

end OwnedBody

end NoteQuery
