import NoteQuery.Proofs.Scan.Reads

/-! # What a scan does to placeholders

Numbering the pieces of a scan neither makes up nor cuts a placeholder. Of the placeholders that
stood in the text that was read, those inside of references disappear together with these, the
others are kept, and each reference adds its own (`Piece.count_numerals_numbered`).
-/

namespace NoteQuery

theorem IsSpelling.outer {spelling : Text} (spelled : IsSpelling spelling) :
    ∃ c rest, spelling = c :: rest ∧ Placeholder.isInner c = false := by
  obtain ⟨c, rest, whole, marked⟩ := spelled.marked
  refine ⟨c, rest, whole, ?_⟩
  simp only [isMark, Bool.or_eq_true, beq_iff_eq] at marked
  rcases marked with (rfl | rfl) | rfl <;> rfl

/-- Placeholders in a spelling end in it: they are the same whatever stands behind it. -/
theorem IsSpelling.numerals_append {spelling : Text} (spelled : IsSpelling spelling)
    (kind : Placeholder) (rest : Text) :
    kind.numerals (spelling ++ rest) = kind.numerals spelling ++ kind.numerals rest := by
  rcases spelled.closed with unbraced | ⟨front, last, rfl, closing⟩
  · have alone : kind.numerals (spelling ++ []) = kind.numerals [] :=
      Placeholder.numerals_append_of_not_mem unbraced []
    rw [List.append_nil] at alone
    rw [Placeholder.numerals_append_of_not_mem unbraced, alone]
    rfl
  · clear spelled
    induction front with
    | nil => rcases closing with rfl | rfl <;> rfl
    | cons c front ih =>
        have same :
            kind.read? (c :: front ++ [last] ++ rest) = kind.read? (c :: front ++ [last]) := by
          refine Option.ext fun numeral => ?_
          rw [Placeholder.read?_eq_some_iff, Placeholder.read?_eq_some_iff]
          refine and_congr_left fun word => ⟨?_, ?_⟩
          · -- A placeholder that starts in the spelling cannot reach beyond its last character.
            rintro ⟨behind, whole⟩
            have split : (c :: front ++ [last]) ++ rest =
                ('{' :: (kind.word ++ numeral ++ ['}'])) ++ behind := by
              rw [whole]
              simp
            rcases List.append_eq_append_iff.mp split with ⟨cut, longer, _⟩ | ⟨cut, shorter, _⟩
            · cases cut using List.reverseRecOn with
              | nil => exact ⟨[], by rw [← List.append_nil (c :: front ++ [last]), ← longer]⟩
              | append_singleton cut d _ =>
                  rw [← List.cons_append, ← List.append_assoc] at longer
                  have inside := (List.append_inj' longer rfl).1
                  have member : last ∈ '{' :: (kind.word ++ numeral) := by
                    rw [inside]
                    simp
                  simp only [List.mem_cons, List.mem_append] at member
                  rcases member with rfl | named | digit
                  · rcases closing with other | other <;> cases other
                  · cases kind <;> rcases closing with rfl | rfl <;>
                      simp [Placeholder.word] at named
                  · have decimal := word.2 last digit
                    rcases closing with rfl | rfl <;> cases decimal
            · exact ⟨cut, by rw [shorter]; simp⟩
          · rintro ⟨behind, whole⟩
            exact ⟨behind ++ rest, by rw [whole]; simp⟩
        simp only [List.cons_append, Placeholder.numerals] at ih same ⊢
        rw [same, ih, List.append_assoc]

namespace Piece

variable {Record : Type}

variable {pieces : List (Piece Record)} (kind other : Placeholder) (next : Nat)

/-- When the references start with characters that no placeholder holds, a placeholder starts at a
plain character of the written text exactly when it started there in the text that was read. -/
theorem read?_cons_numbered_of_outer
    (opened : ∀ spelling ∈ spellings pieces,
      ∃ c rest, spelling = c :: rest ∧ Placeholder.isInner c = false) (c : Char) :
    kind.read? (c :: numbered other next pieces) = kind.read? (c :: sources pieces) := by
  have inner {numeral : Text} (digits : ∀ c ∈ numeral, c.isDigit = true) :
      ∀ d ∈ kind.word ++ numeral ++ ['}'], Placeholder.isInner d = true := by
    intro d member
    simp only [List.mem_append, List.mem_singleton] at member
    rcases member with (named | digit) | rfl
    · exact Placeholder.isInner_of_mem_word named
    · simp [Placeholder.isInner, digits d digit]
    · rfl
  refine Option.ext fun numeral => ?_
  rw [Placeholder.read?_eq_some_iff, Placeholder.read?_eq_some_iff]
  refine and_congr_left fun word => ⟨?_, ?_⟩
  · rintro ⟨rest, same⟩
    have split : numbered other next pieces = (kind.word ++ numeral ++ ['}']) ++ rest := by
      rw [(List.cons.inj same).2]
      simp
    have closed : '{' ∉ kind.word ++ numeral ++ ['}'] := fun member => by
      cases inner word.2 _ member
    obtain ⟨back, rfl, _⟩ := eq_plain_of_numbered closed split
    refine ⟨sources back, ?_⟩
    rw [sources_map_plain_append, (List.cons.inj same).1]
    simp
  · rintro ⟨rest, same⟩
    have split : sources pieces = (kind.word ++ numeral ++ ['}']) ++ rest := by
      rw [(List.cons.inj same).2]
      simp
    have marked : ∀ spelling ∈ spellings pieces,
        ∃ c rest, spelling = c :: rest ∧ (!Placeholder.isInner c) = true := by
      simpa using opened
    obtain ⟨back, rfl, _⟩ := eq_plain_of_sources marked
      (fun d member => by rw [inner word.2 d member]; rfl) split
    refine ⟨numbered other next back, ?_⟩
    rw [numbered_map_plain_append, (List.cons.inj same).1]
    simp

/-- **The balance of placeholders.** What the written text shows and what the references enclosed
is what the text held and what the references added. -/
theorem count_numerals_numbered_of_outer
    (opened : ∀ spelling ∈ spellings pieces,
      ∃ c rest, spelling = c :: rest ∧ Placeholder.isInner c = false)
    (ends : ∀ spelling ∈ spellings pieces, ∀ rest,
      kind.numerals (spelling ++ rest) = kind.numerals spelling ++ kind.numerals rest)
    (numeral : Text) :
    (kind.numerals (numbered other next pieces)).count numeral +
        ((spellings pieces).flatMap kind.numerals).count numeral =
      (kind.numerals (sources pieces)).count numeral +
        if other = kind then
          ((List.range' next (records pieces).length).map Text.ofNat).count numeral
        else 0 := by
  induction pieces generalizing next with
  | nil => simp [numbered, spellings, records, Placeholder.numerals]
  | cons piece pieces ih =>
      cases piece with
      | plain c =>
          have opened' : ∀ spelling ∈ spellings pieces,
              ∃ c rest, spelling = c :: rest ∧ Placeholder.isInner c = false := opened
          have later := ih next opened' ends
          have same := read?_cons_numbered_of_outer kind other next opened' c
          simp only [numbered, spellings_plain, sources_cons_plain, records_cons_plain,
            Placeholder.numerals, same, List.count_append]
          omega
      | reference spelling record =>
          have later := ih (next + 1) (fun spelling member => opened spelling (by simp [member]))
            (fun spelling member => ends spelling (by simp [member]))
          have here := ends spelling (by simp) (sources pieces)
          simp only [numbered, spellings_cons_reference, sources_cons_reference,
            records_cons_reference, Placeholder.numerals_numbered_append, here, List.count_append,
            List.flatMap_cons, List.length_cons, List.range'_succ, List.map_cons, List.count_cons]
          by_cases same : other = kind
          · simp only [same, ↓reduceIte, List.count_cons, List.count_nil] at later ⊢
            omega
          · simp only [same, ↓reduceIte, List.count_nil] at later ⊢
            omega

/-- Spellings of references leave the placeholders behind plain characters as they are. -/
theorem read?_cons_numbered (spelled : ∀ spelling ∈ spellings pieces, IsSpelling spelling)
    (kind other : Placeholder) (next : Nat) (c : Char) :
    kind.read? (c :: numbered other next pieces) = kind.read? (c :: sources pieces) :=
  read?_cons_numbered_of_outer kind other next
    (fun spelling member => (spelled spelling member).outer) c

theorem count_numerals_numbered (spelled : ∀ spelling ∈ spellings pieces, IsSpelling spelling)
    (kind other : Placeholder) (next : Nat) (numeral : Text) :
    (kind.numerals (numbered other next pieces)).count numeral +
        ((spellings pieces).flatMap kind.numerals).count numeral =
      (kind.numerals (sources pieces)).count numeral +
        if other = kind then
          ((List.range' next (records pieces).length).map Text.ofNat).count numeral
        else 0 :=
  count_numerals_numbered_of_outer kind other next
    (fun spelling member => (spelled spelling member).outer)
    (fun spelling member => (spelled spelling member).numerals_append kind) numeral

end Piece

end NoteQuery
