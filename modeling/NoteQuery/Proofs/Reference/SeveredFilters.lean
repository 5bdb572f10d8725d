import NoteQuery.Proofs.Reference.SkippedTags

/-! # The tag filters that the attribute phase consumes

A pass of the attribute extraction replaces every attribute reference in its spelling together with
its tag filters, up to the first closing parenthesis. When that parenthesis belongs to the suffix
`.Exists()` of an attribute inside of the tag filters, the tag filters of the inner attribute are
left over behind the new placeholder (`AttributeReference.ownedBy_numbered`). This is the only way
in which a tag reference outlasts both phases (`AttributeReference.onlyBehind_rewritten`).
-/

namespace NoteQuery

open AttributeHead (OwnedBy filtersOpening existsSuffix)

/-- Whether a text ends in the placeholder of an attribute and tag filters that are still open. -/
def Severed (front : Text) : Prop :=
  ∃ (before : Text) (number : Nat) (inside : Text),
    front = before ++ (Placeholder.attribute.numbered number ++ (filtersOpening ++ inside)) ∧
      ')' ∉ inside

/-- Whether tag filters open in front of the tag filters of an attribute that must exist. -/
def NestsFilters (clause : Text) : Prop :=
  ∃ before between behind : Text,
    clause = before ++ (filtersOpening ++ (between ++ (existsSuffix ++ (filtersOpening ++ behind))))

/-- Nested tag filters in the written text stood in the text that was read. -/
theorem NestsFilters.of_numbered {Record : Type} {kind : Placeholder} {next : Nat}
    {pieces : List (Piece Record)} (nests : NestsFilters (Piece.numbered kind next pieces)) :
    NestsFilters (Piece.sources pieces) := by
  obtain ⟨before, between, behind, whole⟩ := nests
  obtain ⟨front, later, rfl, _, rest⟩ :=
    Piece.split_numbered_literal (by decide) (by decide) (by decide) whole
  rw [← List.append_assoc existsSuffix] at rest
  obtain ⟨middle, last, rfl, _, _⟩ :=
    Piece.split_numbered_literal (by decide) (by decide) (by decide) rest
  refine ⟨Piece.sources front, Piece.sources middle, Piece.sources last, ?_⟩
  simp only [Piece.sources_append, Piece.sources_plain, List.append_assoc]

/-- A head in one spelling is none in the other. -/
theorem AttributeHead.read?_of_ne {spelling owner : Spelling} (different : owner ≠ spelling)
    {head : AttributeHead} (fits : head.toQualifiedName.Fits owner) (rest : Text) :
    read? spelling (head.spelled owner ++ rest) = none := by
  by_contra read
  obtain ⟨⟨other, behind⟩, read⟩ := Option.ne_none_iff_exists'.mp read
  obtain ⟨whole, fits'⟩ := spelled_of_read? read
  obtain ⟨c, tail, start, class'⟩ := fits.spelled_eq_cons
  obtain ⟨d, tail', start', class''⟩ := fits'.spelled_eq_cons
  rw [spelled, spelled, start, start'] at whole
  simp only [List.cons_append, List.cons.injEq] at whole
  have same : c = d := whole.2.1
  subst same
  cases owner with
  | plain =>
      cases spelling with
      | plain => exact different rfl
      | bracketed =>
          rw [class''] at class'
          cases class'
  | bracketed =>
      cases spelling with
      | plain =>
          rw [class'] at class''
          cases class''
      | bracketed => exact different rfl

namespace AttributeReference

variable {spelling owner : Spelling} {clause : Text} {next : Nat}
  {front back : List (Piece AttributeReference)}

theorem sources_scan (unfailed : (scan spelling clause).failure = none) :
    Piece.sources (scan spelling clause).pieces = clause :=
  phase.sources_scan spelling clause unfailed

/-- What was found where a reference of a scan stands. -/
theorem found_scan (unfailed : (scan spelling clause).failure = none) {spelled : Text}
    {reference : AttributeReference}
    (split : (scan spelling clause).pieces = front ++ .reference spelled reference :: back) :
    (step spelling clause (spelled ++ Piece.sources back)).found =
      .reference reference (Piece.sources back) :=
  (Scan.reads_ofSteps _ clause).found_reference unfailed split

/-- No head is read at a plain character. -/
theorem read?_of_plain (unfailed : (scan spelling clause).failure = none) {c : Char}
    (split : (scan spelling clause).pieces = front ++ .plain c :: back) :
    AttributeHead.read? spelling (c :: Piece.sources back) = none := by
  rcases (Scan.reads_ofSteps _ clause).found_plain unfailed split with
    found | ⟨_, _, _, _, found, _⟩
  · exact found_eq_plain_iff.mp found
  · exact (found_ne_keep found).elim

theorem spelled_of_scan (unfailed : (scan spelling clause).failure = none) {spelled : Text}
    (member : spelled ∈ Piece.spellings (scan spelling clause).pieces) :
    ∃ head : AttributeHead, head.toQualifiedName.Fits spelling ∧
      (spelled = head.spelled spelling ∨
        ∃ body, ')' ∉ body ∧
          spelled = head.spelled spelling ++ (filtersOpening ++ (body ++ [')']))) := by
  obtain ⟨front, reference, back, split⟩ := Piece.split_of_mem_spellings member
  exact spelled_of_found (found_scan unfailed split)

theorem sign_of_scan (unfailed : (scan spelling clause).failure = none) {spelled : Text}
    (member : spelled ∈ Piece.spellings (scan spelling clause).pieces) :
    ∃ c rest, spelled = c :: rest ∧ (c == '@') = true := by
  obtain ⟨head, _, rfl | ⟨body, _, rfl⟩⟩ := spelled_of_scan unfailed member
  · exact ⟨'@', _, rfl, rfl⟩
  · exact ⟨'@', _, rfl, rfl⟩

/-- Inside of a reference another sign or a brace stands in its tag filters only, and from there
the reference reaches to a closing parenthesis. -/
theorem split_of_scan (unfailed : (scan spelling clause).failure = none) {begun ended : Text}
    {c : Char} (member : begun ++ c :: ended ∈ Piece.spellings (scan spelling clause).pieces)
    (filled : begun ≠ []) (sign : c = '@' ∨ c = '{') :
    (∃ before between, begun = before ++ (filtersOpening ++ between)) ∧
      ∃ within, c :: ended = within ++ [')'] := by
  obtain ⟨head, fits, spelled⟩ := spelled_of_scan unfailed member
  obtain ⟨d, begun, rfl⟩ := List.exists_cons_of_ne_nil filled
  -- Behind its first character neither the head nor the opening of the tag filters has such a sign.
  have absent : c ∉ head.toQualifiedName.spelled spelling ++ head.suffix ++ filtersOpening := by
    intro inside
    simp only [List.mem_append] at inside
    rcases inside with (name | suffix) | opening
    · rcases sign with rfl | rfl <;> cases fits.isNameCharacter name
    · rcases sign with rfl | rfl <;> exact absurd (AttributeHead.mem_suffix suffix) (by decide)
    · rcases sign with rfl | rfl <;> exact absurd opening (by decide)
  rcases spelled with same | ⟨body, _, same⟩
  · rw [AttributeHead.spelled, List.cons_append, List.cons.injEq] at same
    refine (absent (List.mem_append_left _ ?_)).elim
    rw [← same.2]
    simp
  · rw [← List.append_assoc] at same
    rcases List.append_eq_append_iff.mp same with ⟨cut, whole, ends⟩ | ⟨between, whole, ends⟩
    · cases cut with
      | nil =>
          refine ⟨⟨head.spelled spelling, [], ?_⟩, body, ends⟩
          rw [List.append_nil] at whole ⊢
          exact whole.symm
      | cons e cut =>
          rw [List.cons_append, List.cons.injEq] at ends
          rw [AttributeHead.spelled, List.cons_append, List.cons_append, List.cons.injEq] at whole
          refine (absent ?_).elim
          rw [whole.2, ends.1]
          simp
    · refine ⟨⟨head.spelled spelling, between, by rw [whole, List.append_assoc]⟩, ?_⟩
      obtain ⟨within, last, ending⟩ : ∃ within last, c :: ended = within ++ [last] :=
        ⟨_, _, (List.dropLast_append_getLast (List.cons_ne_nil c ended)).symm⟩
      rw [ending, ← List.append_assoc] at ends
      have closing := (List.append_inj' ends rfl).2
      exact ⟨within, by rw [ending, closing]⟩

/-- A reference that reaches over such a sign reaches to a closing parenthesis behind it. -/
theorem mem_of_split (unfailed : (scan spelling clause).failure = none) {begun ended behind : Text}
    {c : Char} (member : begun ++ ended ∈ Piece.spellings (scan spelling clause).pieces)
    (started : begun ≠ []) (filled : ended ≠ []) (sign : c = '@' ∨ c = '{') {text : Text}
    (opened : c :: text = ended ++ behind) :
    (∃ before between, begun = before ++ (filtersOpening ++ between)) ∧
      ∃ within, ended = within ++ [')'] := by
  obtain ⟨d, ended, rfl⟩ := List.exists_cons_of_ne_nil filled
  rw [List.cons_append, List.cons.injEq] at opened
  rw [← opened.1] at member ⊢
  exact split_of_scan unfailed member started sign

/-- Without a sign of attributes a text is written as it was read, and no parenthesis is added
behind it. -/
theorem numbered_unmarked (unfailed : (scan spelling clause).failure = none) (next : Nat)
    {pieces : List (Piece AttributeReference)}
    (part : ∀ spelled ∈ Piece.spellings pieces,
      spelled ∈ Piece.spellings (scan spelling clause).pieces)
    {text inside : Text} (unmarked : '@' ∉ text) (unclosed : ')' ∉ inside)
    (same : Piece.sources pieces = text ++ inside) :
    ∃ inside', ')' ∉ inside' ∧ Piece.numbered .attribute next pieces = text ++ inside' := by
  have plain : ∀ c ∈ text, (c == '@') = false := by
    intro c member
    rw [beq_eq_false_iff_ne]
    intro sign
    exact unmarked (sign ▸ member)
  have marked : ∀ spelled ∈ Piece.spellings pieces, ∃ c rest, spelled = c :: rest ∧
      (c == '@') = true := by
    intro spelled member
    exact sign_of_scan unfailed (part spelled member)
  obtain ⟨back, rfl, rest⟩ := Piece.eq_plain_of_sources marked plain same
  refine ⟨Piece.numbered .attribute next back, ?_, Piece.numbered_map_plain_append _ _ _ _⟩
  intro closed
  apply unclosed
  rw [← rest]
  exact Piece.mem_sources_of_mem_numbered (by decide) (by decide) closed

/-- Severed tag filters are left as they are. -/
theorem severed_numbered (unfailed : (scan spelling clause).failure = none)
    (split : (scan spelling clause).pieces = front ++ back)
    (severed : Severed (Piece.sources front)) :
    Severed (Piece.numbered .attribute next front) := by
  obtain ⟨before, number, inside, whole, unclosed⟩ := severed
  have absent (c : Char) (outer : Placeholder.isInner c = false) (other : c ≠ '{')
      (further : c ∉ filtersOpening) :
      c ∉ Placeholder.attribute.numbered number ++ filtersOpening := by
    rw [List.mem_append, not_or]
    exact ⟨Placeholder.not_mem_numbered outer other, further⟩
  rcases Piece.split_sources whole with ⟨first, second, rfl, rfl, opened⟩ |
    ⟨first, begun, ended, reference, last, rfl, started, filled, rfl, opened⟩
  · rw [← List.append_assoc] at opened
    have part : ∀ spelled ∈ Piece.spellings second,
        spelled ∈ Piece.spellings (scan spelling clause).pieces := by
      intro spelled member
      rw [split]
      simp [member]
    obtain ⟨inside', unclosed', written⟩ := numbered_unmarked unfailed _ part
      (absent '@' rfl (by decide) (by decide)) unclosed opened
    refine ⟨Piece.numbered .attribute next first, number, inside', ?_, unclosed'⟩
    rw [Piece.numbered_append, written, List.append_assoc]
  · -- A reference that reaches over the brace would reach to a closing parenthesis.
    have member : begun ++ ended ∈ Piece.spellings (scan spelling clause).pieces := by
      rw [split]
      simp
    obtain ⟨_, within, closing⟩ := mem_of_split unfailed member started filled (.inr rfl) opened
    have closed : ')' ∈ (Placeholder.attribute.numbered number ++ filtersOpening) ++ inside := by
      rw [List.append_assoc, opened, closing]
      simp
    rcases List.mem_append.mp closed with early | later
    · exact (absent ')' rfl (by decide) (by decide) early).elim
    · exact (unclosed later).elim

/-- No reference starts where tag filters start that are still open behind it. -/
theorem not_reference_at_head (unfailed : (scan spelling clause).failure = none)
    {spelled inside : Text} {reference : AttributeReference}
    {last : List (Piece AttributeReference)}
    (split : (scan spelling clause).pieces =
      front ++ .reference spelled reference :: (last ++ back))
    {head : AttributeHead} (fits : head.toQualifiedName.Fits owner)
    (opened : spelled ++ Piece.sources last = head.spelled owner ++ (filtersOpening ++ inside)) :
    ')' ∈ inside := by
  have found := found_scan unfailed split
  have text : spelled ++ Piece.sources (last ++ back) =
      head.spelled owner ++ (filtersOpening ++ (inside ++ Piece.sources back)) := by
    rw [Piece.sources_append, ← List.append_assoc, opened]
    simp only [List.append_assoc]
  rw [text, found_step] at found
  by_cases same : owner = spelling
  · subst same
    have rest : filtersOpening.isPrefixOf? (filtersOpening ++ (inside ++ Piece.sources back)) =
        some (inside ++ Piece.sources back) := List.isPrefixOf?_eq_some_iff_append_eq.mpr rfl
    simp only [AttributeHead.read?_spelled_opening fits, rest] at found
    split at found
    · cases found
    · rename_i body rest closed
      split at found
      · cases found
      · cases found
        have whole := Text.cut?_eq_some_append closed
        rw [Piece.sources_append, ← List.cons_append, ← List.append_assoc] at whole
        rw [List.append_cancel_right whole]
        simp
  · simp only [AttributeHead.read?_of_ne same fits] at found
    cases found

/-- A reference that ends inside of an opened head ends with the suffix of that head. -/
theorem existsSuffix_of_split {head : AttributeHead} (fits : head.toQualifiedName.Fits owner)
    {inside within rest : Text} (unclosed : ')' ∉ inside)
    (same : head.spelled owner ++ (filtersOpening ++ inside) = within ++ [')'] ++ rest) :
    within ++ [')'] = '@' :: (head.toQualifiedName.spelled owner ++ existsSuffix) ∧
      rest = filtersOpening ++ inside := by
  have name : ')' ∉ '@' :: head.toQualifiedName.spelled owner := by
    intro member
    rcases List.mem_cons.mp member with other | member
    · cases other
    · cases fits.isNameCharacter member
  have behind : ')' ∉ filtersOpening ++ inside := by
    rw [List.mem_append, not_or]
    exact ⟨by decide, unclosed⟩
  obtain ⟨qualified, mustExist⟩ := head
  cases mustExist with
  | false =>
      have absent : ')' ∉ (⟨qualified, false⟩ : AttributeHead).spelled owner ++
          (filtersOpening ++ inside) := by
        rw [List.mem_append, not_or]
        refine ⟨?_, behind⟩
        simpa [AttributeHead.spelled, AttributeHead.suffix] using name
      refine (absent ?_).elim
      rw [same]
      simp
  | true =>
      have front : ')' ∉ '@' :: (qualified.spelled owner ++ ".Exists(".toList) := by
        rw [← List.cons_append, List.mem_append, not_or]
        exact ⟨name, by decide⟩
      have whole : '@' :: (qualified.spelled owner ++ ".Exists(".toList) ++
          ')' :: (filtersOpening ++ inside) = within ++ ')' :: rest := by
        rw [List.append_cons within, ← same]
        simp only [AttributeHead.spelled, AttributeHead.suffix, ↓reduceIte, List.cons_append,
          List.append_assoc]
        rfl
      obtain ⟨rfl, _, rfl⟩ := (List.append_cons_inj_of_notMem front behind).mp whole
      refine ⟨?_, rfl⟩
      simp only [List.cons_append, List.append_assoc]
      rfl

/-- Open tag filters that no reference reaches over are still open behind a pass, and their
attribute is not in the spelling of the pass. -/
theorem ownedBy_numbered_of_between (unfailed : (scan spelling clause).failure = none)
    {first second : List (Piece AttributeReference)}
    (split : (scan spelling clause).pieces = first ++ (second ++ back)) {head : AttributeHead}
    {inside : Text} (fits : head.toQualifiedName.Fits owner) (unclosed : ')' ∉ inside)
    (opened : Piece.sources second = head.spelled owner ++ (filtersOpening ++ inside)) :
    owner ≠ spelling ∧ OwnedBy owner (Piece.numbered .attribute next (first ++ second)) := by
  cases second with
  | nil => cases opened
  | cons piece last =>
      cases piece with
      | reference spelled reference =>
          exact (unclosed (not_reference_at_head unfailed split fits opened)).elim
      | plain c =>
          have whole : c :: Piece.sources last =
              '@' :: (head.toQualifiedName.spelled owner ++ head.suffix ++ filtersOpening ++
                inside) := by
            rw [← Piece.sources_cons_plain, opened, AttributeHead.spelled]
            simp only [List.cons_append, List.append_assoc]
          obtain ⟨rfl, rest⟩ := List.cons.inj whole
          rw [List.cons_append] at split
          constructor
          · intro same
            subst same
            have unread := read?_of_plain unfailed split
            rw [Piece.sources_append, ← List.cons_append, ← Piece.sources_cons_plain, opened,
              List.append_assoc, List.append_assoc,
              AttributeHead.read?_spelled_opening fits] at unread
            cases unread
          · have signs : '@' ∉ head.toQualifiedName.spelled owner ++ head.suffix ++
                filtersOpening := by
              intro member
              simp only [List.mem_append] at member
              rcases member with (name | suffix) | opening
              · cases fits.isNameCharacter name
              · exact absurd (AttributeHead.mem_suffix suffix) (by decide)
              · exact absurd opening (by decide)
            have part : ∀ spelled ∈ Piece.spellings last,
                spelled ∈ Piece.spellings (scan spelling clause).pieces := by
              intro spelled member
              rw [split]
              simp [member]
            obtain ⟨inside', unclosed', written⟩ :=
              numbered_unmarked unfailed _ part signs unclosed rest
            refine ⟨Piece.numbered .attribute next first, head, inside', ?_, fits, unclosed'⟩
            rw [Piece.numbered_append, Piece.numbered, written, AttributeHead.spelled]
            simp only [List.cons_append, List.append_assoc]

/-- Open tag filters whose head a reference reaches over are severed by the pass. -/
theorem severed_of_inside (unfailed : (scan spelling clause).failure = none)
    {first last : List (Piece AttributeReference)} {begun ended : Text}
    {reference : AttributeReference}
    (split : (scan spelling clause).pieces =
      first ++ (.reference (begun ++ ended) reference :: last ++ back))
    (started : begun ≠ []) (filled : ended ≠ []) {head : AttributeHead} {inside : Text}
    (fits : head.toQualifiedName.Fits owner) (unclosed : ')' ∉ inside)
    (opened : head.spelled owner ++ (filtersOpening ++ inside) = ended ++ Piece.sources last) :
    Severed (Piece.numbered .attribute next
        (first ++ .reference (begun ++ ended) reference :: last)) ∧ NestsFilters clause := by
  have member : begun ++ ended ∈ Piece.spellings (scan spelling clause).pieces := by
    rw [split]
    simp
  obtain ⟨⟨earlier, between, rfl⟩, within, closing⟩ :=
    mem_of_split unfailed member started filled (.inl rfl) opened
  rw [closing] at opened
  obtain ⟨suffixed, rest⟩ := existsSuffix_of_split fits unclosed opened
  constructor
  · have part : ∀ spelled ∈ Piece.spellings last,
        spelled ∈ Piece.spellings (scan spelling clause).pieces := by
      intro spelled member
      rw [split]
      simp [member]
    obtain ⟨inside', unclosed', written⟩ := numbered_unmarked unfailed
      (next + (Piece.records first).length + 1) part (by decide) unclosed rest
    refine ⟨Piece.numbered .attribute next first, next + (Piece.records first).length, inside',
      ?_, unclosed'⟩
    rw [Piece.numbered_append, Piece.numbered, written]
  · refine ⟨Piece.sources first ++ earlier, between ++ '@' :: head.toQualifiedName.spelled owner,
      inside ++ Piece.sources back, ?_⟩
    rw [← sources_scan unfailed, split, Piece.sources_append, Piece.sources_append,
      Piece.sources_cons_reference, rest, closing, suffixed]
    simp only [List.append_assoc, List.cons_append]

/-- Behind a pass tag filters that were open are still open, unless their attribute was in the
spelling of the pass or in the tag filters of another one; then they are severed. -/
theorem ownedBy_numbered (unfailed : (scan spelling clause).failure = none)
    (split : (scan spelling clause).pieces = front ++ back)
    (owned : OwnedBy owner (Piece.sources front)) :
    owner ≠ spelling ∧ OwnedBy owner (Piece.numbered .attribute next front) ∨
      Severed (Piece.numbered .attribute next front) ∧ NestsFilters clause := by
  obtain ⟨before, head, inside, whole, fits, unclosed⟩ := owned
  rcases Piece.split_sources whole with ⟨first, second, rfl, rfl, opened⟩ |
    ⟨first, begun, ended, reference, last, rfl, started, filled, rfl, opened⟩
  · rw [List.append_assoc] at split
    exact .inl (ownedBy_numbered_of_between unfailed split fits unclosed opened)
  · rw [List.append_assoc] at split
    exact .inr (severed_of_inside unfailed split started filled fits unclosed opened)

/-- Whether the head of an attribute reference can be read somewhere in a text. -/
def HoldsHead (spelling : Spelling) (clause : Text) : Prop :=
  ∃ place, place <:+ clause ∧ (AttributeHead.read? spelling place).isSome

/-- A head in the written text was read as plain characters, and a head stood in its place. -/
theorem HoldsHead.split {Record : Type} {kind : Placeholder} {pieces : List (Piece Record)}
    (holds : HoldsHead spelling (Piece.numbered kind next pieces)) :
    ∃ front c back, pieces = front ++ .plain c :: back ∧
      (AttributeHead.read? spelling (c :: Piece.sources back)).isSome := by
  obtain ⟨place, ⟨before, whole⟩, read⟩ := holds
  obtain ⟨⟨head, behind⟩, read⟩ := Option.isSome_iff_exists.mp read
  obtain ⟨rfl, fits⟩ := AttributeHead.spelled_of_read? read
  have unbraced : '{' ∉ '@' :: head.toQualifiedName.spelled spelling := by
    intro member
    rcases List.mem_cons.mp member with other | member
    · cases other
    · cases fits.isNameCharacter member
  have same : Piece.numbered kind next pieces =
      before ++ ('@' :: head.toQualifiedName.spelled spelling ++ (head.suffix ++ behind)) := by
    rw [← whole, AttributeHead.spelled]
    simp only [List.cons_append, List.append_assoc]
  obtain ⟨front, back, rfl, _, _⟩ := Piece.split_numbered (by decide) unbraced same
  refine ⟨front, '@', (head.toQualifiedName.spelled spelling).map .plain ++ back, rfl, ?_⟩
  rw [Piece.sources_map_plain_append]
  exact AttributeHead.read?_isSome_of_spelled fits _

/-- A pass leaves no head in its spelling. -/
theorem not_holdsHead_numbered (unfailed : (scan spelling clause).failure = none) :
    ¬ HoldsHead spelling (Piece.numbered .attribute next (scan spelling clause).pieces) := by
  intro holds
  obtain ⟨front, c, back, split, read⟩ := holds.split
  rw [read?_of_plain unfailed split] at read
  cases read

/-- A pass makes up no head. -/
theorem HoldsHead.of_numbered (unfailed : (scan spelling clause).failure = none)
    (holds : HoldsHead owner (Piece.numbered .attribute next (scan spelling clause).pieces)) :
    HoldsHead owner clause := by
  obtain ⟨front, c, back, split, read⟩ := holds.split
  refine ⟨_, ⟨Piece.sources front, ?_⟩, read⟩
  rw [← sources_scan unfailed, split, Piece.sources_append, Piece.sources_cons_plain]

theorem not_holdsHead_rewritten (completes : phase.Completes clause next) (spelling : Spelling) :
    ¬ HoldsHead spelling (phase.rewritten clause next) := by
  cases spelling with
  | plain =>
      intro holds
      exact not_holdsHead_numbered completes.1 (HoldsHead.of_numbered completes.2 holds)
  | bracketed => exact not_holdsHead_numbered completes.2

/-- Whether a text ends in open tag filters: those of an attribute in some spellings, or severed
ones. The latter come from nested tag filters. -/
def Outstanding (owners : List Spelling) (nested : Prop) (front : Text) : Prop :=
  (∃ owner ∈ owners, OwnedBy owner front) ∨ Severed front ∧ nested

variable {owners : List Spelling} {nested : Prop} {tags : Spelling}

/-- Behind a pass no tag reference is left in the tag filters of an attribute in its spelling. -/
theorem onlyBehind_numbered
    (settled : TagReference.OnlyBehind (Outstanding owners nested) tags clause)
    (unfailed : (scan spelling clause).failure = none) (nests : NestsFilters clause → nested) :
    TagReference.OnlyBehind (Outstanding (owners.filter (· ≠ spelling)) nested) tags
      (Piece.numbered .attribute next (scan spelling clause).pieces) := by
  intro front text same read
  obtain ⟨front, c, back, split, rfl, stands⟩ := TagReference.split_read? same read
  have whole := sources_scan unfailed
  rw [split, Piece.sources_append] at whole
  rcases settled _ _ whole.symm stands with ⟨owner, listed, owned⟩ | ⟨severed, nested⟩
  · rcases ownedBy_numbered unfailed split owned with ⟨other, owned⟩ | ⟨severed, filters⟩
    · exact .inl ⟨owner, List.mem_filter.mpr ⟨listed, by simpa using other⟩, owned⟩
    · exact .inr ⟨severed, nests filters⟩
  · exact .inr ⟨severed_numbered unfailed split severed, nested⟩

theorem onlyBehind_rewritten (completes : phase.Completes clause next)
    (settled : TagReference.OnlyBehind (fun front => ∃ owner, OwnedBy owner front) tags clause)
    (nests : NestsFilters clause → nested) :
    TagReference.OnlyBehind (fun front => Severed front ∧ nested) tags
      (phase.rewritten clause next) := by
  have start : TagReference.OnlyBehind (Outstanding [.plain, .bracketed] nested) tags clause := by
    intro front text same read
    obtain ⟨owner, owned⟩ := settled front text same read
    refine .inl ⟨owner, ?_, owned⟩
    cases owner <;> simp
  have halfway : TagReference.OnlyBehind (Outstanding [.bracketed] nested) tags
      (phase.halfway clause next) := onlyBehind_numbered start completes.1 nests
  have filters : NestsFilters (phase.halfway clause next) → nested := by
    intro filters
    apply nests
    rw [← sources_scan completes.1]
    exact filters.of_numbered
  have last : TagReference.OnlyBehind (Outstanding [] nested) tags (phase.rewritten clause next) :=
    onlyBehind_numbered halfway completes.2 filters
  intro front text same read
  exact (last front text same read).resolve_left (by simp)

end AttributeReference

end NoteQuery
