import NoteQuery.Proofs.Query.Positions
import NoteQuery.Proofs.Reference.SeveredFilters

/-! # What a pass for attributes replaces

A pass cuts a clause into attribute references and the text between them. A reference is as long as
it can be: its name takes the longest words, and the suffixes that stand directly behind the name
belong to it (`AttributeReference.Stands`). Nothing between the references looks like one
(`AttributeReference.extractSpelling_cut`).
-/

namespace NoteQuery

namespace AttributeHead

/-- Whether the sign of attributes and a name in one spelling stand at the start of a text. -/
def Begins (spelling : Spelling) (text : Text) : Prop :=
  ∃ (name : QualifiedName) (rest : Text),
    text = '@' :: (name.spelled spelling ++ rest) ∧ name.Fits spelling

/-- The head of an attribute reference stands at the start of a text, with `behind` directly behind
it. A plain name ends where its words end, and in front of a parenthesis the word behind a dot does
not belong to it; the suffix `.Exists()` belongs to the head wherever it follows the name. -/
structure Stands (spelling : Spelling) (head : AttributeHead) (text behind : Text) : Prop where
  fits : head.toQualifiedName.Fits spelling
  text_eq : text = '@' :: (head.toQualifiedName.spelled spelling ++ (head.suffix ++ behind))
  ends : spelling = .plain →
    head.toQualifiedName.EndsAt (fun more => more.head? != some '(') (head.suffix ++ behind)
  mustExist_iff : head.mustExist = true ↔ existsSuffix <+: head.suffix ++ behind

variable {spelling : Spelling} {text behind : Text} {head : AttributeHead}

theorem begins_iff : Begins spelling text ↔ (read? spelling text).isSome := by
  constructor
  · rintro ⟨name, rest, rfl, fits⟩
    exact read?_isSome_of_spelled fits rest
  · intro read
    obtain ⟨⟨head, behind⟩, read⟩ := Option.isSome_iff_exists.mp read
    obtain ⟨rfl, fits⟩ := spelled_of_read? read
    exact ⟨head.toQualifiedName, head.suffix ++ behind, by simp [spelled], fits⟩

/-- A head that is read stands there. -/
theorem stands_of_read? (read : read? spelling text = some (head, behind)) :
    head.Stands spelling text behind := by
  unfold read? at read
  split at read
  · split at read
    · cases read
    · rename_i name rest named
      obtain ⟨rfl, fits, ends⟩ := QualifiedName.read?_eq_some_iff.mp named
      split at read
      · rename_i suffixed
        cases read
        cases List.append_eq_of_isPrefixOf?_eq_some suffixed
        exact ⟨fits, rfl, ends, by simp [suffix]⟩
      · rename_i unsuffixed
        cases read
        refine ⟨fits, rfl, ends, iff_of_false Bool.false_ne_true ?_⟩
        rintro ⟨more, same⟩
        have suffixed : existsSuffix.isPrefixOf? behind = some more :=
          List.isPrefixOf?_eq_some_iff_append_eq.mpr same
        rw [suffixed] at unsuffixed
        cases unsuffixed
  · cases read

end AttributeHead

namespace AttributeReference

open AttributeHead (filtersOpening)

/-- An attribute reference spelled `spelled` stands in front of `behind`: its head, and behind the
head tag filters up to the first closing parenthesis if there are any. -/
def Stands (spelling : Spelling) (reference : AttributeReference) (spelled behind : Text) : Prop :=
  ∃ rest, reference.toAttributeHead.Stands spelling (spelled ++ behind) rest ∧
    match reference.tagFilters with
    | none => rest = behind ∧ ¬ filtersOpening <+: rest
    | some filters => ∃ body, rest = filtersOpening ++ (body ++ ')' :: behind) ∧ ')' ∉ body ∧
        readTagFilters body = .ok filters

variable {spelling : Spelling} {clause text spelled behind : Text} {reference : AttributeReference}
  {error : QueryError}

/-- What a step replaces is a reference that stands there. -/
theorem stands_of_found
    (found : (step spelling clause (spelled ++ behind)).found = .reference reference behind) :
    reference.Stands spelling spelled behind := by
  rw [found_step] at found
  split at found
  · cases found
  · rename_i head rest read
    refine ⟨rest, ?_⟩
    split at found
    · rename_i unopened
      cases found
      refine ⟨AttributeHead.stands_of_read? read, rfl, ?_⟩
      rintro ⟨inside, same⟩
      rw [List.isPrefixOf?_eq_some_iff_append_eq.mpr same] at unopened
      cases unopened
    · rename_i inside opened
      split at found
      · cases found
      · rename_i body more closed
        split at found
        · cases found
        · rename_i filters readFilters
          cases found
          obtain ⟨rfl, free⟩ := Text.cut?_eq_some_iff.mp closed
          have whole := (List.append_eq_of_isPrefixOf?_eq_some opened).symm
          exact ⟨AttributeHead.stands_of_read? read, body, whole, free, readFilters⟩

/-- Tag filters that cannot be read hold a data filter that is not closed. -/
theorem unclosed_of_readTagFilters {body : Text} (failed : readTagFilters body = .error error) :
    error.unclosed = .dataFilter := by
  obtain ⟨spelling, text, _, failed⟩ := exists_failure_of_readTagFilters failed
  obtain ⟨_, _, _, _, rfl⟩ := TagReference.failure_scan_eq_some_iff.mp failed
  rfl

/-- A pass that misses a parenthesis comes to the head of a reference with tag filters in which
there is none. -/
theorem exists_unclosed_of_scan (failed : (scan spelling clause).failure = some error)
    (unclosed : error.unclosed = .tagFilters) :
    ∃ (front : Text) (head : AttributeHead) (inside : Text),
      head.toQualifiedName.Fits spelling ∧ ')' ∉ inside ∧
      clause = front ++ (head.spelled spelling ++ (filtersOpening ++ inside)) ∧
      error = ⟨.tagFilters, head.name, (front ++ head.spelled spelling).utf8Size, .clause⟩ := by
  obtain ⟨head, inside, ⟨place, reaches, read⟩, missed | ⟨body, behind, _, _, unread⟩⟩ :=
    failure_scan_eq_some_iff.mp failed
  · obtain ⟨free, rfl⟩ := missed
    obtain ⟨rfl, fits⟩ := AttributeHead.spelled_of_read? read
    obtain ⟨front, rfl⟩ := reaches.suffix
    refine ⟨front, head, inside, fits, free, rfl, ?_⟩
    rw [← List.append_assoc, Text.bytesBefore_append]
  · rw [unclosed_of_readTagFilters unread] at unclosed
    cases unclosed

/-- **A pass replaces exactly the attribute references in its spelling, with their suffixes.** When
it succeeds, the clause is cut into references and the text between them: the references become
placeholders that go on counting behind the records known before, and their records are appended in
this order; each of them stands where it was cut out, and no reference begins anywhere between them.
It fails because of a parenthesis only at a reference whose tag filters are never closed, and the
error names the reference and the place where they open. -/
theorem extractSpelling_cut (spelling : Spelling) (clause : Text)
    (known : List AttributeReference) :
    (∀ text, (extractSpelling spelling clause known).clause = .ok text →
      ∃ pieces : List (Piece AttributeReference), Piece.sources pieces = clause ∧
        text = Piece.numbered .attribute known.length pieces ∧
        (extractSpelling spelling clause known).records = known ++ Piece.records pieces ∧
        (∀ front c back, pieces = front ++ .plain c :: back →
          ¬ AttributeHead.Begins spelling (c :: Piece.sources back)) ∧
        ∀ front spelled reference back, pieces = front ++ .reference spelled reference :: back →
          reference.Stands spelling spelled (Piece.sources back)) ∧
    ∀ error, (extractSpelling spelling clause known).clause = .error error →
      error.unclosed = .tagFilters →
        ∃ (front : Text) (head : AttributeHead) (inside : Text),
          head.toQualifiedName.Fits spelling ∧ ')' ∉ inside ∧
          clause = front ++ (head.spelled spelling ++ (filtersOpening ++ inside)) ∧
          error = ⟨.tagFilters, head.name, (front ++ head.spelled spelling).utf8Size, .clause⟩ := by
  rw [extractSpelling, ← scan, Extraction.ofScan]
  constructor
  · intro text extracted
    cases failed : (scan spelling clause).failure with
    | some error =>
        rw [failed] at extracted
        cases extracted
    | none =>
        rw [failed] at extracted
        cases extracted
        refine ⟨(scan spelling clause).pieces, sources_scan failed, rfl, rfl, ?_, ?_⟩
        · intro front c back split begins
          rw [AttributeHead.begins_iff, read?_of_plain failed split] at begins
          cases begins
        · intro front spelled reference back split
          exact stands_of_found (found_scan failed split)
  · intro error extracted unclosed
    cases failed : (scan spelling clause).failure with
    | some found =>
        rw [failed] at extracted
        cases extracted
        exact exists_unclosed_of_scan failed unclosed
    | none =>
        rw [failed] at extracted
        cases extracted

/-- A call behind a name is no part of the reference, and the parenthesis of `.Exists()` does not
close tag filters; in the second clause no parenthesis does. -/
theorem extractSpelling_cut_suffixes :
    (∃ pieces : List (Piece AttributeReference),
      Piece.sources pieces = "@a.Size() @s.b.Exists().On(#x|y)".toList ∧
      Piece.numbered .attribute 0 pieces = "{attr0}.Size() {attr1}".toList ∧
      ∀ front c back, pieces = front ++ .plain c :: back →
        ¬ AttributeHead.Begins .plain (c :: Piece.sources back)) ∧
    ∃ (front : Text) (head : AttributeHead) (inside : Text),
      "@a @[b].On(c".toList =
        front ++ (head.spelled .bracketed ++ (filtersOpening ++ inside)) ∧ ')' ∉ inside := by
  have replaced : (extractSpelling .plain "@a.Size() @s.b.Exists().On(#x|y)".toList []).clause =
      .ok "{attr0}.Size() {attr1}".toList := by decide +kernel
  have refused : (extractSpelling .bracketed "@a @[b].On(c".toList []).clause =
      .error ⟨.tagFilters, ['b'], 7, .clause⟩ := by decide +kernel
  obtain ⟨pieces, whole, written, _, between, _⟩ :=
    (extractSpelling_cut .plain "@a.Size() @s.b.Exists().On(#x|y)".toList []).1 _ replaced
  obtain ⟨front, head, inside, _, free, stands, _⟩ :=
    (extractSpelling_cut .bracketed "@a @[b].On(c".toList []).2 _ refused rfl
  exact ⟨⟨pieces, whole, written.symm, between⟩, front, head, inside, stands, free⟩

end AttributeReference

end NoteQuery
