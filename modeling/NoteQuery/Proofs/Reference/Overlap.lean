import NoteQuery.Proofs.Reference.Ownership

/-! # How owned bodies overlap

Two bodies that attributes of a clause own have no place in common unless they end at the same place
(`OwnedBody.apart_or_closing_eq`): tag filters that open inside others are closed by the same
parenthesis. So which of the bodies that cover a place is found first makes no difference to where
the place is left, and no body that covered it goes on behind
(`OwnedBody.overlapping_end_together`).
-/

namespace NoteQuery.OwnedBody

open AttributeHead (filtersOpening)

variable {clause inside outer inner front : Text} {body other : OwnedBody} {left : Nat}

/-- The body that starts with the opening of tag filters in front of a text. -/
def openedBefore (inside : Text) : OwnedBody :=
  ⟨(filtersOpening ++ inside).length, (behind inside).length⟩

/-- A body of a clause starts with the opening of tag filters. -/
theorem exists_eq_openedBefore (member : body ∈ ofClause clause) :
    ∃ inside, filtersOpening ++ inside <:+ clause ∧ body = openedBefore inside := by
  obtain ⟨spelling, place, suffix, read⟩ := mem_ofClause_iff.mp member
  obtain ⟨head, inside, rfl, _, rfl⟩ := read?_eq_some_iff.mp read
  exact ⟨inside, (List.suffix_append _ _).trans suffix, rfl⟩

/-- The opening of tag filters does not overlap with itself: where it stands at two places, these
are the same, or one stands behind the other. -/
theorem eq_or_exists_eq_append (suffix : filtersOpening ++ inner <:+ filtersOpening ++ outer) :
    inner = outer ∨ ∃ between, outer = between ++ (filtersOpening ++ inner) := by
  obtain ⟨front, whole⟩ := suffix
  rcases List.append_eq_append_iff.mp whole with ⟨cut, opening, rest⟩ | ⟨between, _, rest⟩
  · cases front with
    | nil => exact .inl (List.append_cancel_left whole)
    | cons c front =>
        cases cut with
        | nil => exact .inr ⟨[], rest.symm⟩
        | cons d cut =>
            have once : '.' ∉ filtersOpening.tail := by decide
            have dot : '.' = d := (List.cons.inj rest).1
            refine (once ?_).elim
            rw [opening, ← dot]
            simp
  · exact .inr ⟨between, rest⟩

/-- A body that starts in another one or behind it has no place in common with it unless they end at
the same place: the parenthesis that closes the first one stands in front of the second one, or it
closes both. -/
theorem opening_le_closing_or_closing_eq
    (suffix : filtersOpening ++ inner <:+ filtersOpening ++ outer) :
    (openedBefore inner).opening ≤ (openedBefore outer).closing ∨
      (openedBefore inner).closing = (openedBefore outer).closing := by
  rcases eq_or_exists_eq_append suffix with rfl | ⟨between, rfl⟩
  · exact .inr rfl
  · by_cases closed : ')' ∈ between
    · left
      simp only [openedBefore, behind_append_of_mem closed, List.length_append]
      omega
    · right
      have unclosed : ')' ∉ filtersOpening := by decide
      simp only [openedBefore, behind_append_of_not_mem closed, behind_append_of_not_mem unclosed]

theorem covers_iff : body.covers left = true ↔ body.closing < left ∧ left ≤ body.opening := by
  simp only [covers, Bool.and_eq_true, decide_eq_true_eq]

/-- Two bodies, one of which starts where the other has ended, have no place in common. -/
theorem not_covers_of_opening_le (ended : body.opening ≤ other.closing) (left : Nat) :
    ¬ (body.covers left ∧ other.covers left) := by
  intro ⟨covered, covered'⟩
  have before := (covers_iff.mp covered).2
  have behind := (covers_iff.mp covered').1
  omega

/-- Two bodies of a clause have no place in common, or they end at the same place. -/
theorem apart_or_closing_eq (member : body ∈ ofClause clause) (member' : other ∈ ofClause clause) :
    (∀ left, ¬ (body.covers left ∧ other.covers left)) ∨ body.closing = other.closing := by
  obtain ⟨inside, suffix, rfl⟩ := exists_eq_openedBefore member
  obtain ⟨inside', suffix', rfl⟩ := exists_eq_openedBefore member'
  rcases List.suffix_or_suffix_of_suffix suffix suffix' with within | within
  · exact (opening_le_closing_or_closing_eq within).imp_left not_covers_of_opening_le
  · rcases opening_le_closing_or_closing_eq within with ended | same
    · exact .inl fun left both => not_covers_of_opening_le ended left both.symm
    · exact .inr same.symm

/-- The bodies that cover a place end at one place. -/
theorem closing_eq_of_covers (member : body ∈ ofClause clause) (member' : other ∈ ofClause clause)
    (covered : body.covers left) (covered' : other.covers left) : body.closing = other.closing := by
  rcases apart_or_closing_eq member member' with apart | same
  · exact (apart left ⟨covered, covered'⟩).elim
  · exact same

/-- In whatever order the bodies are searched, the one that is found ends where all that cover the
place do. -/
theorem closing_owning?_of_perm {bodies : List OwnedBody} (perm : bodies.Perm (ofClause clause))
    (member : body ∈ ofClause clause) (covered : body.covers left) :
    (owning? bodies left).map closing = some body.closing := by
  cases found : owning? bodies left with
  | none =>
      have uncovered := List.find?_eq_none.mp found body (perm.mem_iff.mpr member)
      exact (uncovered covered).elim
  | some owner =>
      have owns := List.find?_some found
      have listed : owner ∈ ofClause clause := perm.mem_iff.mp (List.mem_of_find?_eq_some found)
      rw [Option.map_some, closing_eq_of_covers listed member owns covered]

/-- **Owned bodies overlap only by sharing their end.** So all that cover a place end where the one
that is found ends, in whatever order they are searched, and none of them goes on behind. -/
theorem overlapping_end_together (clause : Text) :
    (∀ body ∈ ofClause clause, ∀ other ∈ ofClause clause,
      (∀ left, ¬ (body.covers left ∧ other.covers left)) ∨ body.closing = other.closing) ∧
    ∀ left, ∀ body ∈ ofClause clause, body.covers left →
      (∀ bodies, bodies.Perm (ofClause clause) →
        (owning? bodies left).map OwnedBody.closing = some body.closing) ∧
      ∀ other ∈ ofClause clause, other.covers left →
        ∀ later ≤ body.closing, other.covers later = false := by
  refine ⟨fun body member other member' => apart_or_closing_eq member member', ?_⟩
  intro left body member covered
  refine ⟨fun bodies perm => closing_owning?_of_perm perm member covered, ?_⟩
  intro other member' covered' later passed
  rw [Bool.eq_false_iff]
  intro again
  have ends := closing_eq_of_covers member member' covered covered'
  have inside := (covers_iff.mp again).1
  omega

/-- The parenthesis of `.Exists()` closes the first body in front of the second one, in which the
third one is nested. -/
theorem overlapping_end_together_nested :
    let clause : Text := "@a.On(@b.Exists().On(#t @[c d].On(#u) #v".toList
    let first : OwnedBody := ⟨38, 23⟩
    let second : OwnedBody := ⟨23, 3⟩
    let third : OwnedBody := ⟨10, 3⟩
    ofClause clause = [first, second, third] ∧
      (∀ left, ¬ (first.covers left ∧ second.covers left)) ∧
      second.covers 6 ∧ third.covers 6 ∧
      (owning? [third, first, second] 6).map OwnedBody.closing = some second.closing ∧
      ∀ later ≤ second.closing, third.covers later = false := by
  intro clause first second third
  have bodies : ofClause clause = [first, second, third] := by decide
  obtain ⟨apart, ends⟩ := overlapping_end_together clause
  rw [bodies] at apart ends
  have separate := apart first (by decide) second (by decide)
  obtain ⟨found, left⟩ := ends 6 second (by decide) (by decide)
  refine ⟨bodies, separate.resolve_right (by decide), by decide, by decide, ?_, ?_⟩
  · exact found [third, first, second] (by decide)
  · exact left third (by decide) (by decide)

end NoteQuery.OwnedBody
