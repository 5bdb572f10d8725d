import NoteQuery.Reference.Tag
import NoteQuery.Proofs.Reference.Name
import NoteQuery.Proofs.Scan.Reads

/-! # How tags are spelled

A tag reference consists of modifiers and a name (`TagReference.spelled_of_read?`), and wherever
such a spelling stands a tag reference is read (`TagReference.read?_isSome_of_marks`). What a step
of the tag extraction finds depends on this reading, on the bodies that attributes own, and on the
braces behind the tag (`TagReference.found_step`).
-/

namespace NoteQuery

namespace TagModifiers

/-- The marks that some modifiers are spelled with. -/
inductive Marks : Text → TagModifiers → Prop where
  | tilde : Marks ['~'] ⟨0, true, true⟩
  | hashes (early : Bool) (more : Nat) (relaxed late : Bool) :
      Marks (Text.optional '~' early ++ (List.replicate (more + 1) '#' ++
        (Text.optional '?' relaxed ++ Text.optional '~' late)))
        ⟨more + 1, !relaxed, early || late⟩

/-- The characters that modifiers are spelled with. -/
def isModifier (c : Char) : Bool :=
  c == '#' || c == '~' || c == '?'

variable {text marks behind : Text} {modifiers : TagModifiers}

theorem Marks.isModifier (spelled : Marks marks modifiers) {c : Char} (member : c ∈ marks) :
    TagModifiers.isModifier c = true := by
  cases spelled with
  | tilde =>
      rw [List.mem_singleton.mp member]
      rfl
  | hashes early more relaxed late =>
      have options (d : Char) (present : Bool) (inside : c ∈ Text.optional d present) : c = d := by
        cases present with
        | false => cases inside
        | true => exact List.mem_singleton.mp inside
      simp only [List.mem_append] at member
      rcases member with inside | inside | inside | inside
      · rw [options _ _ inside]
        rfl
      · rw [List.eq_of_mem_replicate inside]
        rfl
      · rw [options _ _ inside]
        rfl
      · rw [options _ _ inside]
        rfl

/-- Modifiers start with a hash sign or a tilde. -/
theorem Marks.eq_cons (spelled : Marks marks modifiers) :
    ∃ c rest, marks = c :: rest ∧ (c = '#' ∨ c = '~') := by
  cases spelled with
  | tilde => exact ⟨'~', [], rfl, .inr rfl⟩
  | hashes early more relaxed late =>
      cases early with
      | false => exact ⟨'#', _, rfl, .inl rfl⟩
      | true => exact ⟨'~', _, rfl, .inr rfl⟩

/-- Modifiers are read from their marks. -/
theorem marks_of_read? (read : read? text = some (modifiers, behind)) :
    ∃ marks, text = marks ++ behind ∧ Marks marks modifiers := by
  obtain ⟨early, tail, front⟩ : ∃ early tail, Text.skipOptional '~' text = (early, tail) :=
    ⟨_, _, rfl⟩
  simp only [read?, front] at read
  cases run : Text.run? (· == '#') tail with
  | none =>
      simp only [run, Option.ite_none_right_eq_some, Option.some.injEq, Prod.mk.injEq] at read
      obtain ⟨rfl, rfl, rfl⟩ := read
      exact ⟨['~'], (Text.skipOptional_eq_iff.mp front).1, .tilde⟩
  | some found =>
      obtain ⟨hashes, rest⟩ := found
      obtain ⟨relaxed, rest', middle⟩ :
          ∃ relaxed tail, Text.skipOptional '?' rest = (relaxed, tail) := ⟨_, _, rfl⟩
      obtain ⟨late, rest'', back⟩ : ∃ late tail, Text.skipOptional '~' rest' = (late, tail) :=
        ⟨_, _, rfl⟩
      simp only [run, middle, back, Option.some.injEq, Prod.mk.injEq] at read
      obtain ⟨rfl, rfl⟩ := read
      obtain ⟨rfl, filled, hashed, _⟩ := Text.run?_eq_some_iff.mp run
      obtain ⟨more, counted⟩ := Nat.exists_eq_succ_of_ne_zero
        (fun empty => filled (List.length_eq_zero_iff.mp empty))
      have same : hashes = List.replicate (more + 1) '#' :=
        List.eq_replicate_iff.mpr ⟨counted, fun c member => by simpa using hashed c member⟩
      rw [counted]
      refine ⟨_, ?_, .hashes early more relaxed late⟩
      rw [(Text.skipOptional_eq_iff.mp front).1, (Text.skipOptional_eq_iff.mp middle).1,
        (Text.skipOptional_eq_iff.mp back).1, same]
      simp only [List.append_assoc]

/-- Marks are read as modifiers when no further mark stands behind them. -/
theorem Marks.read?_append (spelled : Marks marks modifiers)
    (stops : ∀ c ∈ behind.head?, TagModifiers.isModifier c = false) :
    read? (marks ++ behind) = some (modifiers, behind) := by
  have apart {c : Char} (modifier : TagModifiers.isModifier c = true) : c ∉ behind.head? := by
    intro first
    rw [stops c first] at modifier
    exact Bool.noConfusion modifier
  cases spelled with
  | tilde =>
      have unhashed : Text.run? (· == '#') behind = none := by
        rw [Text.run?_eq_none_iff]
        intro c first
        have different : c ≠ '#' := fun same => apart (c := '#') rfl (same ▸ first)
        simp [different]
      simp [read?, Text.skipOptional, unhashed]
  | hashes early more relaxed late =>
      have back : Text.skipOptional '~' (Text.optional '~' late ++ behind) = (late, behind) :=
        Text.skipOptional_eq_iff.mpr ⟨rfl, fun _ => apart rfl⟩
      have middle : Text.skipOptional '?' (Text.optional '?' relaxed ++
          (Text.optional '~' late ++ behind)) = (relaxed, Text.optional '~' late ++ behind) := by
        refine Text.skipOptional_eq_iff.mpr ⟨rfl, fun _ => ?_⟩
        cases late with
        | false => exact apart rfl
        | true => simp [Text.optional]
      have run : Text.run? (· == '#') (List.replicate (more + 1) '#' ++
          (Text.optional '?' relaxed ++ (Text.optional '~' late ++ behind))) =
          some (List.replicate (more + 1) '#',
            Text.optional '?' relaxed ++ (Text.optional '~' late ++ behind)) := by
        refine Text.run?_eq_some_iff.mpr ⟨rfl, by simp, by simp, fun c first => ?_⟩
        have different : c ≠ '#' := by
          rintro rfl
          cases relaxed <;> cases late <;> simp [Text.optional] at first
          exact apart (c := '#') rfl first
        simp [different]
      have front : Text.skipOptional '~' (Text.optional '~' early ++
          (List.replicate (more + 1) '#' ++
            (Text.optional '?' relaxed ++ (Text.optional '~' late ++ behind)))) =
          (early, List.replicate (more + 1) '#' ++
            (Text.optional '?' relaxed ++ (Text.optional '~' late ++ behind))) :=
        Text.skipOptional_eq_iff.mpr ⟨rfl, fun _ => by simp [List.replicate_succ]⟩
      simp only [read?, List.append_assoc, front, run, middle, back, List.length_replicate]

end TagModifiers

/-- No name starts like modifiers. -/
theorem QualifiedName.Fits.head_not_modifier {spelling : Spelling} {name : QualifiedName}
    (fits : name.Fits spelling) (rest : Text) :
    ∀ c ∈ (name.spelled spelling ++ rest).head?, TagModifiers.isModifier c = false := by
  intro c first
  obtain ⟨d, tail, start, word⟩ := fits.spelled_eq_cons
  rw [start] at first
  cases first
  cases spelling with
  | bracketed =>
      rw [word]
      rfl
  | plain =>
      by_contra modifier
      simp only [TagModifiers.isModifier, Bool.not_eq_false, Bool.or_eq_true, beq_iff_eq]
        at modifier
      rcases modifier with (rfl | rfl) | rfl <;> cases word

namespace TagReference

/-- The characters that tag references are spelled with, apart from their data filters. -/
def isTagCharacter (c : Char) : Bool :=
  TagModifiers.isModifier c || QualifiedName.isNameCharacter c

variable {spelling : Spelling} {text marks behind : Text} {tag : TagReference}

/-- A tag reference is read from marks and a name. -/
theorem spelled_of_read? (read : read? spelling text = some (tag, behind)) :
    ∃ marks, text = marks ++ (tag.toQualifiedName.spelled spelling ++ behind) ∧
      TagModifiers.Marks marks tag.toTagModifiers ∧ tag.toQualifiedName.Fits spelling := by
  unfold read? at read
  split at read
  · cases read
  · rename_i modifiers rest modified
    split at read
    · cases read
    · rename_i name after named
      simp only [Option.some.injEq, Prod.mk.injEq] at read
      obtain ⟨rfl, rfl⟩ := read
      obtain ⟨marks, rfl, marked⟩ := TagModifiers.marks_of_read? modified
      obtain ⟨rfl, fits, _⟩ := QualifiedName.read?_eq_some_iff.mp named
      exact ⟨marks, rfl, marked, fits⟩

/-- A tag reference starts with a hash sign or a tilde. -/
theorem eq_cons_of_read? (read : read? spelling text = some (tag, behind)) :
    ∃ c rest, text = c :: rest ∧ (c = '#' ∨ c = '~') := by
  obtain ⟨marks, rfl, marked, _⟩ := spelled_of_read? read
  obtain ⟨c, tail, rfl, mark⟩ := marked.eq_cons
  exact ⟨c, _, rfl, mark⟩

/-- A tag reference does not start inside of the opening of tag filters. -/
theorem outside_of_read? (read : read? spelling text = some (tag, behind)) :
    ∀ c ∈ text.head?, c ∉ AttributeHead.filtersOpening := by
  obtain ⟨c, rest, rfl, mark⟩ := eq_cons_of_read? read
  intro d first
  cases first
  rcases mark with rfl | rfl <;> decide

/-- Where marks and a name stand, some tag reference is read. -/
theorem read?_isSome_of_marks {modifiers : TagModifiers} {name : QualifiedName}
    (marked : TagModifiers.Marks marks modifiers) (fits : name.Fits spelling) (rest : Text) :
    (read? spelling (marks ++ (name.spelled spelling ++ rest))).isSome := by
  unfold read?
  rw [marked.read?_append (fits.head_not_modifier rest)]
  have named : (QualifiedName.read? spelling (fun _ => true)
      (name.spelled spelling ++ rest)).isSome := fits.read?_isSome rest
  cases found : QualifiedName.read? spelling (fun _ => true) (name.spelled spelling ++ rest) with
  | none =>
      rw [found] at named
      cases named
  | some found => simp only [found, Option.isSome_some]

theorem isTagCharacter_of_mem {modifiers : TagModifiers} {name : QualifiedName}
    (marked : TagModifiers.Marks marks modifiers) (fits : name.Fits spelling) {c : Char}
    (member : c ∈ marks ++ name.spelled spelling) : isTagCharacter c = true := by
  rcases List.mem_append.mp member with inside | inside
  · rw [isTagCharacter, marked.isModifier inside, Bool.true_or]
  · rw [isTagCharacter, fits.isNameCharacter inside, Bool.or_true]

/-- No plain tag is read where modifiers stand in front of a bracket. -/
theorem read?_plain_of_bracket (modified : ∀ c ∈ marks, TagModifiers.isModifier c = true) :
    read? .plain (marks ++ '[' :: behind) = none := by
  rw [Option.eq_none_iff_forall_ne_some]
  rintro ⟨tag, rest⟩ read
  obtain ⟨marks', whole, marked, fits⟩ := spelled_of_read? read
  obtain ⟨c, tail, start, word⟩ := fits.spelled_eq_cons
  have stops := fits.head_not_modifier rest
  rw [start, List.cons_append] at whole stops
  -- The first character behind the modifiers cannot be both a bracket and one of a word.
  have same := congrArg (List.dropWhile TagModifiers.isModifier) whole
  rw [List.dropWhile_append_of_pos modified,
    List.dropWhile_append_of_pos fun d member => marked.isModifier member,
    List.dropWhile_cons_of_neg (by decide),
    List.dropWhile_cons_of_neg (by rw [stops c rfl]; decide), List.cons.injEq] at same
  rw [← same.1] at word
  cases word

/-- No plain tag is read inside of one in brackets. -/
theorem read?_plain_of_inside {modifiers : TagModifiers} {name : QualifiedName} {front : Text}
    (marked : TagModifiers.Marks marks modifiers) (fits : name.Fits .bracketed)
    (same : front ++ text = marks ++ (name.spelled .bracketed ++ behind))
    (inside : front.length < (marks ++ name.spelled .bracketed).length) :
    read? .plain text = none := by
  rcases List.append_eq_append_iff.mp same with ⟨cut, rfl, rfl⟩ | ⟨cut, rfl, ends⟩
  · exact read?_plain_of_bracket fun c member =>
      marked.isModifier (List.mem_append_right front member)
  · rw [Option.eq_none_iff_forall_ne_some]
    rintro ⟨tag, rest⟩ read
    obtain ⟨c, tail, rfl, sign⟩ := eq_cons_of_read? read
    -- The sign of the tag would be a character of the name.
    have member : c ∈ name.spelled .bracketed := by
      rcases List.append_eq_append_iff.mp ends with ⟨more, longer, _⟩ | ⟨more, whole, start⟩
      · simp only [longer, List.length_append] at inside
        omega
      · cases more with
        | nil => simp [whole] at inside
        | cons d more =>
            cases start
            simp [whole]
    rcases sign with rfl | rfl <;> cases fits.isNameCharacter member

/-- What a step of the tag extraction finds. -/
theorem found_step (spelling : Spelling) (clause : Text) (bodies : List OwnedBody) (text : Text) :
    (step spelling clause bodies text).found =
      match read? spelling text with
      | none => .plain
      | some (tag, behind) =>
          match OwnedBody.owning? bodies text.length with
          | some body => .keep (text.drop (text.length - body.closing))
          | none =>
              if DataFilter.opens behind then
                match DataFilter.close? 0 behind.tail with
                | none => .fail ⟨.dataFilter, tag.name, clause.bytesBefore behind, .clause⟩
                | some (body, rest) => .reference { tag with filter := some (.ofBody body) } rest
              else .reference tag behind := by
  unfold step
  split
  · rename_i unread
    simp only [unread, Step.found]
  · rename_i tag behind read
    simp only [read]
    split
    · rename_i body owned
      simp only [owned, Step.found]
    · rename_i owned
      simp only [owned]
      split
      · split
        · rename_i unclosed
          simp only [unclosed, Step.found]
        · rename_i body rest closed
          simp only [closed, Step.found]
      · rfl

/-- What a step replaces was read as a tag. -/
theorem read?_isSome_of_found {clause : Text} {bodies : List OwnedBody}
    (found : (step spelling clause bodies text).found = .reference tag behind) :
    (read? spelling text).isSome := by
  rw [found_step] at found
  cases read : read? spelling text with
  | none =>
      rw [read] at found
      cases found
  | some result => rfl

/-- A text with a brace at the start is the only one that opens a data filter. -/
theorem eq_brace_cons_of_opens (opens : DataFilter.opens behind = true) :
    ∃ rest, behind = '{' :: rest := by
  cases behind with
  | nil => cases opens
  | cons c rest =>
      simp only [DataFilter.opens, List.head?_cons, Bool.and_eq_true, beq_iff_eq,
        Option.some.injEq] at opens
      exact ⟨rest, by rw [opens.1]⟩

/-- What a step replaces is marks and a name, perhaps with a data filter that opens there. -/
theorem spelled_of_found {clause spelled : Text} {bodies : List OwnedBody}
    (found : (step spelling clause bodies (spelled ++ behind)).found = .reference tag behind) :
    ∃ marks, TagModifiers.Marks marks tag.toTagModifiers ∧ tag.toQualifiedName.Fits spelling ∧
      (spelled = marks ++ tag.toQualifiedName.spelled spelling ∨
        ∃ body, spelled = marks ++ tag.toQualifiedName.spelled spelling ++ '{' :: (body ++ ['}']) ∧
          DataFilter.opens ('{' :: (body ++ '}' :: behind)) = true) := by
  rw [found_step] at found
  cases read : read? spelling (spelled ++ behind) with
  | none =>
      rw [read] at found
      cases found
  | some result =>
      obtain ⟨plain, rest⟩ := result
      obtain ⟨marks, whole, marked, fits⟩ := spelled_of_read? read
      simp only [read] at found
      split at found
      · cases found
      · split at found
        · rename_i opened
          split at found
          · cases found
          · rename_i body rest' closed
            cases found
            obtain ⟨more, rfl⟩ := eq_brace_cons_of_opens opened
            rw [List.tail_cons] at closed
            rw [DataFilter.close?_eq_some_append closed] at whole opened
            refine ⟨marks, marked, fits, .inr ⟨body, ?_, opened⟩⟩
            refine (List.append_left_inj behind).mp ?_
            rw [whole]
            simp only [List.append_assoc, List.cons_append, List.nil_append]
        · cases found
          refine ⟨marks, marked, fits, .inl ((List.append_left_inj behind).mp ?_)⟩
          rw [whole, List.append_assoc]

/-- What a step replaces is the spelling of a reference. -/
theorem isSpelling_of_found {clause spelled : Text} {bodies : List OwnedBody}
    (found : (step spelling clause bodies (spelled ++ behind)).found = .reference tag behind) :
    IsSpelling spelled := by
  obtain ⟨marks, marked, fits, spelled⟩ := spelled_of_found found
  obtain ⟨c, tail, rfl, mark⟩ := marked.eq_cons
  have isMarked : isMark c = true := by rcases mark with rfl | rfl <;> rfl
  rcases spelled with rfl | ⟨body, rfl, _⟩
  · refine ⟨⟨c, _, rfl, isMarked⟩, .inl ?_⟩
    intro member
    cases isTagCharacter_of_mem marked fits member
  · refine ⟨⟨c, _, rfl, isMarked⟩, .inr ⟨c :: tail ++
      tag.toQualifiedName.spelled spelling ++ ('{' :: body), '}', ?_, .inl rfl⟩⟩
    simp only [List.append_assoc, List.cons_append]

/-- A tag reference in the written text was read as plain characters, and a tag reference stood in
its place. -/
theorem split_read? {Record : Type} {kind : Placeholder} {next : Nat} {pieces : List (Piece Record)}
    {before : Text} (same : Piece.numbered kind next pieces = before ++ text)
    (read : (read? spelling text).isSome) :
    ∃ front c back, pieces = front ++ .plain c :: back ∧
      Piece.numbered kind next front = before ∧
      (read? spelling (c :: Piece.sources back)).isSome := by
  obtain ⟨⟨tag, behind⟩, read⟩ := Option.isSome_iff_exists.mp read
  obtain ⟨marks, rfl, marked, fits⟩ := spelled_of_read? read
  obtain ⟨c, tail, rfl, mark⟩ := marked.eq_cons
  have outer : Placeholder.isInner c = false := by rcases mark with rfl | rfl <;> rfl
  have unbraced : '{' ∉ c :: (tail ++ tag.toQualifiedName.spelled spelling) := by
    intro member
    cases isTagCharacter_of_mem marked fits member
  have split : Piece.numbered kind next pieces =
      before ++ (c :: (tail ++ tag.toQualifiedName.spelled spelling) ++ behind) := by
    rw [same]
    simp only [List.append_assoc, List.cons_append]
  obtain ⟨front, back, rfl, rfl, _⟩ := Piece.split_numbered outer unbraced split
  refine ⟨front, c, _, rfl, rfl, ?_⟩
  have stands := read?_isSome_of_marks marked fits (Piece.sources back)
  rwa [← List.append_assoc, List.cons_append, List.cons_append,
    ← Piece.sources_map_plain_append _ back] at stands

end TagReference

end NoteQuery
