import NoteQuery.Reference.Attribute
import NoteQuery.Proofs.Reference.Name
import NoteQuery.Proofs.Scan.Reads

/-! # How attributes are spelled

The head of an attribute reference is read from `@`, a name and perhaps the suffix `.Exists()`
(`AttributeHead.spelled_of_read?`), and it is read again wherever it stands at the end of a text or
in front of tag filters (`AttributeHead.read?_spelled_append`). A reference that a step of the
attribute extraction replaces reaches to the end of its head or to the first parenthesis that closes
its tag filters (`AttributeReference.spelled_of_found`).
-/

namespace NoteQuery

namespace AttributeHead

/-- The suffix behind the name of an attribute. -/
def suffix (head : AttributeHead) : Text :=
  if head.mustExist then existsSuffix else []

/-- The head of an attribute reference as it is spelled. -/
def spelled (spelling : Spelling) (head : AttributeHead) : Text :=
  '@' :: (head.toQualifiedName.spelled spelling ++ head.suffix)

variable {spelling : Spelling} {text behind : Text} {head : AttributeHead}

theorem spelled_of_read? (read : read? spelling text = some (head, behind)) :
    text = head.spelled spelling ++ behind ∧ head.toQualifiedName.Fits spelling := by
  unfold read? at read
  split at read
  · split at read
    · cases read
    · rename_i name rest named
      obtain ⟨rfl, fits, _⟩ := QualifiedName.read?_eq_some_iff.mp named
      split at read
      · rename_i suffixed
        cases read
        rw [← List.append_eq_of_isPrefixOf?_eq_some suffixed]
        exact ⟨by simp [spelled, suffix], fits⟩
      · cases read
        exact ⟨by simp [spelled, suffix], fits⟩
  · cases read

/-- A head is read where a text ends with it or tag filters stand behind it. -/
theorem read?_spelled_append (fits : head.toQualifiedName.Fits spelling)
    (closed : behind = [] ∨ ∃ inside, behind = filtersOpening ++ inside) :
    read? spelling (head.spelled spelling ++ behind) = some (head, behind) := by
  obtain ⟨name, mustExist⟩ := head
  have ends : name.EndsAt (fun behind => behind.head? != some '(')
      ((⟨name, mustExist⟩ : AttributeHead).suffix ++ behind) := by
    -- Behind the dot of a suffix there stands a word, and behind the word a parenthesis.
    have refused (word rest : Text) (letters : ∀ c ∈ word, isWord c = true) (filled : word ≠ [])
        (second more : Text)
        (again : Text.run? isWord (word ++ '(' :: rest) = some (second, more)) :
        (more.head? != some '(') = false := by
      have run : Text.run? isWord (word ++ '(' :: rest) = some (word, '(' :: rest) := by
        refine Text.run?_eq_some_iff.mpr ⟨rfl, filled, letters, ?_⟩
        intro c first
        cases first
        rfl
      rw [run] at again
      cases again
      rfl
    cases mustExist with
    | false =>
        rcases closed with rfl | ⟨inside, rfl⟩
        · exact ⟨by rintro c ⟨⟩, fun _ => rfl, by rintro _ rest second more ⟨⟩⟩
        refine ⟨?_, fun _ => rfl, ?_⟩
        · intro c first
          cases first
          rfl
        · intro _ rest second more same
          cases same
          exact refused ['O', 'n'] inside (List.all_eq_true.mp rfl) (by decide) second more
    | true =>
        refine ⟨?_, fun _ => rfl, ?_⟩
        · intro c first
          cases first
          rfl
        · intro _ rest second more same
          cases same
          exact refused ['E', 'x', 'i', 's', 't', 's'] (')' :: behind)
            (List.all_eq_true.mp rfl) (by decide) second more
  have named := QualifiedName.read?_eq_some_iff.mpr
    ⟨rfl, fits, fun _ : spelling = .plain => ends⟩
  have whole : (⟨name, mustExist⟩ : AttributeHead).spelled spelling ++ behind =
      '@' :: (name.spelled spelling ++ ((⟨name, mustExist⟩ : AttributeHead).suffix ++ behind)) := by
    simp only [spelled, List.cons_append, List.append_assoc]
  rw [whole]
  simp only [read?, named]
  cases mustExist with
  | false => rcases closed with rfl | ⟨inside, rfl⟩ <;> rfl
  | true =>
      have skipped : existsSuffix.isPrefixOf? (existsSuffix ++ behind) = some behind :=
        List.isPrefixOf?_eq_some_iff_append_eq.mpr rfl
      simp only [suffix, ↓reduceIte, skipped]

theorem read?_spelled_opening (fits : head.toQualifiedName.Fits spelling) (inside : Text) :
    read? spelling (head.spelled spelling ++ (filtersOpening ++ inside)) =
      some (head, filtersOpening ++ inside) :=
  read?_spelled_append fits (.inr ⟨inside, rfl⟩)

/-- Where a name stands behind the sign of attributes, the head of a reference is read. -/
theorem read?_isSome_of_spelled {name : QualifiedName} (fits : name.Fits spelling) (rest : Text) :
    (read? spelling ('@' :: (name.spelled spelling ++ rest))).isSome := by
  have named : (QualifiedName.read? spelling (fun behind => behind.head? != some '(')
      (name.spelled spelling ++ rest)).isSome := fits.read?_isSome rest
  rw [read?]
  cases found : QualifiedName.read? spelling (fun behind => behind.head? != some '(')
      (name.spelled spelling ++ rest) with
  | none =>
      rw [found] at named
      cases named
  | some result =>
      dsimp only
      split <;> rfl

/-- Behind the sign of attributes a head consists of characters of names and of its suffix. -/
theorem mem_spelled_iff {c : Char} :
    c ∈ head.spelled spelling ↔
      c = '@' ∨ c ∈ head.toQualifiedName.spelled spelling ∨ c ∈ head.suffix := by
  rw [spelled, List.mem_cons, List.mem_append]

theorem mem_suffix {c : Char} (member : c ∈ head.suffix) : c ∈ existsSuffix := by
  unfold suffix at member
  split at member
  · exact member
  · cases member

end AttributeHead

namespace AttributeReference

variable {spelling : Spelling} {clause text spelled behind : Text}
  {reference : AttributeReference}

/-- What a step of the attribute extraction finds. -/
theorem found_step (spelling : Spelling) (clause text : Text) :
    (step spelling clause text).found =
      match AttributeHead.read? spelling text with
      | none => .plain
      | some (head, behind) =>
          match AttributeHead.filtersOpening.isPrefixOf? behind with
          | none => .reference { head with tagFilters := none } behind
          | some inside =>
              match Text.cut? ')' inside with
              | none => .fail ⟨.tagFilters, head.name, clause.bytesBefore behind, .clause⟩
              | some (body, rest) =>
                  match readTagFilters body with
                  | .error error => .fail error
                  | .ok filters => .reference { head with tagFilters := some filters } rest := by
  unfold step
  split
  · rename_i unread
    simp only [unread, Step.found]
  · rename_i head behind read
    simp only [read]
    split
    · rename_i unopened
      simp only [unopened, Step.found]
    · rename_i inside opened
      simp only [opened]
      split
      · rename_i unclosed
        simp only [unclosed, Step.found]
      · rename_i body rest closed
        simp only [closed]
        cases filters : readTagFilters body <;> rfl

/-- A step finds nothing exactly where no head stands. -/
theorem found_eq_plain_iff :
    (step spelling clause text).found = .plain ↔ AttributeHead.read? spelling text = none := by
  rw [found_step]
  cases AttributeHead.read? spelling text with
  | none => simp only
  | some result =>
      simp only [reduceCtorEq, iff_false]
      intro found
      split at found
      · cases found
      · split at found
        · cases found
        · split at found <;> cases found

theorem found_ne_keep : (step spelling clause text).found ≠ .keep behind := by
  rw [found_step]
  intro found
  split at found
  · cases found
  · split at found
    · cases found
    · split at found
      · cases found
      · split at found <;> cases found

/-- What a step replaces is a head, perhaps with tag filters up to the first parenthesis. -/
theorem spelled_of_found
    (found : (step spelling clause (spelled ++ behind)).found = .reference reference behind) :
    ∃ head : AttributeHead, head.toQualifiedName.Fits spelling ∧
      (spelled = head.spelled spelling ∨
        ∃ body, ')' ∉ body ∧
          spelled = head.spelled spelling ++
            (AttributeHead.filtersOpening ++ (body ++ [')']))) := by
  rw [found_step] at found
  cases read : AttributeHead.read? spelling (spelled ++ behind) with
  | none =>
      rw [read] at found
      cases found
  | some result =>
      obtain ⟨head, rest⟩ := result
      obtain ⟨whole, fits⟩ := AttributeHead.spelled_of_read? read
      refine ⟨head, fits, ?_⟩
      simp only [read] at found
      split at found
      · cases found
        exact .inl (List.append_cancel_right whole)
      · rename_i inside opened
        split at found
        · cases found
        · rename_i body rest' closed
          split at found
          · cases found
          · cases found
            obtain ⟨rfl, unclosed⟩ := Text.cut?_eq_some_iff.mp closed
            refine .inr ⟨body, unclosed, (List.append_left_inj behind).mp ?_⟩
            rw [whole, ← List.append_eq_of_isPrefixOf?_eq_some opened]
            simp only [List.append_assoc, List.cons_append, List.nil_append]

/-- What a step replaces is the spelling of a reference. -/
theorem isSpelling_of_found
    (found : (step spelling clause (spelled ++ behind)).found = .reference reference behind) :
    IsSpelling spelled := by
  obtain ⟨head, fits, rfl | ⟨body, _, rfl⟩⟩ := spelled_of_found found
  · refine ⟨⟨'@', _, rfl, rfl⟩, .inl ?_⟩
    intro member
    rcases AttributeHead.mem_spelled_iff.mp member with other | inside | inside
    · cases other
    · cases fits.isNameCharacter inside
    · exact absurd (AttributeHead.mem_suffix inside) (by decide)
  · refine ⟨⟨'@', _, rfl, rfl⟩, .inr ⟨head.spelled spelling ++
      (AttributeHead.filtersOpening ++ body), ')', ?_, .inr rfl⟩⟩
    simp only [List.append_assoc]

end AttributeReference

end NoteQuery
