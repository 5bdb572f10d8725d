import NoteQuery.Proofs.Query.Phases
import NoteQuery.Proofs.Reference.Alike

/-! # The phases on clauses that are alike

Neither phase looks at the numbers of placeholders or at the records known so far: on clauses that
are alike it fails with the same error, positions apart, or it writes clauses that are alike
(`TagReference.extract_alike`, `AttributeReference.extract_alike`).
-/

namespace NoteQuery

/-- The scans of a phase write alike for clauses that are alike. -/
def Phase.Uniform {Record : Type} (phase : Phase Record) : Prop :=
  ∀ spelling (clause clause' : Text) next next', clause.Alike clause' →
    OutcomeAlike ((phase.scan spelling clause).written phase.kind next)
      ((phase.scan spelling clause').written phase.kind next')

/-- A uniform phase makes alike clauses of alike clauses, or fails for the same reason. -/
theorem Phase.Uniform.extractor_alike {Record : Type} {phase : Phase Record}
    (uniform : phase.Uniform) {clause clause' : Text} (alike : clause.Alike clause')
    (known known' : List Record) :
    OutcomeAlike (phase.extractor clause known).clause (phase.extractor clause' known').clause := by
  have first : OutcomeAlike (Extraction.ofScan phase.kind known (phase.scan .plain clause)).clause
      (Extraction.ofScan phase.kind known' (phase.scan .plain clause')).clause :=
    uniform .plain clause clause' known.length known'.length alike
  unfold extractor
  generalize Extraction.ofScan phase.kind known (phase.scan .plain clause) = halfway at first
  generalize Extraction.ofScan phase.kind known' (phase.scan .plain clause') = halfway' at first
  obtain ⟨outcome, records⟩ := halfway
  obtain ⟨outcome', records'⟩ := halfway'
  cases first with
  | ok alike => exact uniform .bracketed _ _ records.length records'.length alike
  | error alike => exact .error alike

namespace TagReference

variable {spelling : Spelling} {clause clause' text text' : Text}

/-- No tag reference starts with a character that is no mark of one. -/
theorem found_unmarked (spelling : Spelling) (clause : Text) (bodies : List OwnedBody) {c : Char}
    (unmarked : isMark c = false) (rest : Text) :
    (step spelling clause bodies (c :: rest)).found = .plain := by
  rw [found_step]
  cases read : read? spelling (c :: rest) with
  | none => rfl
  | some result =>
      obtain ⟨d, _, same, mark⟩ := eq_cons_of_read? read
      rw [(List.cons.inj same).1] at unmarked
      rcases mark with rfl | rfl <;> cases unmarked

/-- A pass finds no tag in a text without marks. -/
theorem scan_of_unmarked (spelling : Spelling) (unmarked : ∀ c ∈ text, isMark c = false) :
    scan spelling text = ⟨text.map .plain, none⟩ :=
  Scan.ofSteps_of_plain _ fun c member rest => found_unmarked _ _ _ (unmarked c member) rest

/-- What the phase for tags finds does not depend on the numbers of placeholders. -/
theorem uniform_phase : phase.Uniform := by
  intro spelling clause clause' next next' alike
  apply Scan.written_alike (fun c rest unmarked => found_unmarked _ _ _ unmarked rest)
    (fun c rest unmarked => found_unmarked _ _ _ unmarked rest) _ (List.nil_append _).symm
    (List.nil_append _).symm .nil alike
  intro front front' text text' whole whole' before alike
  exact found_alike whole whole' before alike

/-- Tags are extracted alike, whatever records are known. -/
theorem extract_alike (alike : clause.Alike clause') (known known' : List TagReference) :
    OutcomeAlike (extract clause known).clause (extract clause' known').clause :=
  uniform_phase.extractor_alike alike known known'

end TagReference

namespace AttributeReference

variable {spelling : Spelling} {clause clause' text text' : Text}

/-- Fragments of alike tag filters are alike. -/
theorem ownerFragment_alike (alike : text.Alike text') :
    (ownerFragment text).Alike (ownerFragment text') := by
  unfold ownerFragment
  rw [alike.head?_eq]
  split
  · exact alike
  · exact .cons _ alike

/-- The tags of fragments that are alike are extracted, or the same error ends both. -/
theorem extractFragments_alike {fragments fragments' : List Text}
    (alike : List.Forall₂ Text.Alike fragments fragments') (known known' : List TagReference) :
    (∃ tags tags', extractFragments fragments known = .ok tags ∧
        extractFragments fragments' known' = .ok tags') ∨
      ∃ error error', extractFragments fragments known = .error error ∧
        extractFragments fragments' known' = .error error' ∧ error.Alike error' := by
  induction alike generalizing known known' with
  | nil => exact .inl ⟨known, known', rfl, rfl⟩
  | @cons fragment fragment' rest rest' alike _ ih =>
      have extracted := TagReference.extract_alike (ownerFragment_alike alike) known known'
      rw [extractFragments, extractFragments]
      generalize TagReference.extract (ownerFragment fragment) known = first at extracted
      generalize TagReference.extract (ownerFragment fragment') known' = second at extracted
      obtain ⟨outcome, tags⟩ := first
      obtain ⟨outcome', tags'⟩ := second
      cases extracted with
      | ok => exact ih tags tags'
      | error same => exact .inr ⟨_, _, rfl, rfl, same⟩

/-- Alike tag filters are both read, or fail for the same reason. -/
theorem readTagFilters_alike (alike : text.Alike text') :
    (∃ filters filters', readTagFilters text = .ok filters ∧
        readTagFilters text' = .ok filters') ∨
      ∃ error error', readTagFilters text = .error error ∧
        readTagFilters text' = .error error' ∧ error.Alike error' := by
  apply extractFragments_alike
  rw [List.forall₂_map_left_iff, List.forall₂_map_right_iff]
  exact (Text.splitOn_alike (by decide) (by decide) alike).imp fun _ _ => Text.trim_alike

/-- Steps of the attribute extraction find alike things in texts that are alike. -/
theorem found_alike (alike : text.Alike text') :
    FoundAlike text text' (step spelling clause text).found
      (step spelling clause' text').found := by
  rw [found_step, found_step]
  cases read : AttributeHead.read? spelling text with
  | none =>
      rw [AttributeHead.read?_alike_none alike read]
      exact .plain
  | some result =>
      obtain ⟨head, behind⟩ := result
      obtain ⟨behind', read', rest⟩ := AttributeHead.read?_alike alike read
      have whole := (AttributeHead.spelled_of_read? read).1
      have whole' := (AttributeHead.spelled_of_read? read').1
      rw [read']
      dsimp only
      cases opened : AttributeHead.filtersOpening.isPrefixOf? behind with
      | none =>
          have unopened : AttributeHead.filtersOpening.isPrefixOf? behind' = none := by
            cases opened' : AttributeHead.filtersOpening.isPrefixOf? behind' with
            | none => rfl
            | some inside =>
                obtain ⟨_, opened'', _⟩ := Text.isPrefixOf?_alike (by decide) rest.symm opened'
                rw [opened] at opened''
                cases opened''
          rw [unopened]
          exact .reference whole whole' (.refl _) rest
      | some inside =>
          obtain ⟨inside', opened', within⟩ := Text.isPrefixOf?_alike (by decide) rest opened
          rw [opened']
          dsimp only
          cases closed : Text.cut? ')' inside with
          | none =>
              rw [Text.cut?_alike_none (by decide) (by decide) within closed]
              exact .fail ⟨rfl, rfl⟩
          | some cut =>
              obtain ⟨body, last⟩ := cut
              obtain ⟨body', last', closed', filters, further⟩ :=
                Text.cut?_alike (by decide) (by decide) within closed
              rw [closed']
              dsimp only
              rcases readTagFilters_alike filters with
                ⟨tags, tags', ok, ok'⟩ | ⟨error, error', failed, failed', same⟩
              · rw [← List.append_eq_of_isPrefixOf?_eq_some opened, Text.cut?_eq_some_append closed,
                  List.append_cons, ← List.append_assoc, ← List.append_assoc] at whole
                rw [← List.append_eq_of_isPrefixOf?_eq_some opened',
                  Text.cut?_eq_some_append closed', List.append_cons, ← List.append_assoc,
                  ← List.append_assoc] at whole'
                rw [ok, ok']
                exact .reference whole whole' ((filters.append (.refl [')'])).append_left _) further
              · rw [failed, failed']
                exact .fail same

/-- No attribute reference starts with a character that is no mark of one. -/
theorem found_unmarked (spelling : Spelling) (clause : Text) {c : Char}
    (unmarked : isMark c = false) (rest : Text) :
    (step spelling clause (c :: rest)).found = .plain := by
  rw [found_eq_plain_iff]
  by_contra read
  obtain ⟨result, read⟩ := Option.ne_none_iff_exists'.mp read
  have whole := (AttributeHead.spelled_of_read? read).1
  rw [AttributeHead.spelled, List.cons_append] at whole
  rw [(List.cons.inj whole).1] at unmarked
  cases unmarked

/-- A pass finds no attribute in a text without marks. -/
theorem scan_of_unmarked (spelling : Spelling) (unmarked : ∀ c ∈ text, isMark c = false) :
    scan spelling text = ⟨text.map .plain, none⟩ :=
  Scan.ofSteps_of_plain _ fun c member rest => found_unmarked _ _ (unmarked c member) rest

/-- What the phase for attributes finds does not depend on the numbers of placeholders. -/
theorem uniform_phase : phase.Uniform := by
  intro spelling clause clause' next next' alike
  apply Scan.written_alike (fun c rest unmarked => found_unmarked _ _ unmarked rest)
    (fun c rest unmarked => found_unmarked _ _ unmarked rest) _ (List.nil_append _).symm
    (List.nil_append _).symm .nil alike
  intro front front' text text' _ _ _ alike
  exact found_alike alike

/-- Attributes are extracted alike, whatever records are known. -/
theorem extract_alike (alike : clause.Alike clause') (known known' : List AttributeReference) :
    OutcomeAlike (extract clause known).clause (extract clause' known').clause :=
  uniform_phase.extractor_alike alike known known'

end AttributeReference

end NoteQuery
