import NoteQuery.Reference.Name
import NoteQuery.Proofs.Text.Reading

/-! # How names are spelled

A plain name is read exactly where its words stand and end (`QualifiedName.readPlain?_eq_some_iff`),
a name in brackets exactly where its brackets stand (`QualifiedName.readBracketed?_eq_some_iff`).
-/

namespace NoteQuery

/-- The characters of the words in a name. -/
def Spelling.admits : Spelling → Char → Bool
  | .plain => isWord
  | .bracketed => isWordOrBlank

theorem isWordOrBlank_of_isWord {c : Char} (word : isWord c = true) : isWordOrBlank c = true := by
  rw [isWordOrBlank, word, Bool.true_or]

namespace QualifiedName

/-- A name as it is spelled in a reference. -/
def spelled (spelling : Spelling) (name : QualifiedName) : Text :=
  match spelling with
  | .plain => name.joined
  | .bracketed => '[' :: (name.joined ++ [']'])

/-- A name whose words can be spelled: none of them is empty, and all their characters are
admitted. -/
structure Fits (spelling : Spelling) (name : QualifiedName) : Prop where
  name_ne_nil : name.name ≠ []
  name_admitted : ∀ c ∈ name.name, spelling.admits c = true
  space_ne_nil : ∀ space ∈ name.space, space ≠ []
  space_admitted : ∀ space ∈ name.space, ∀ c ∈ space, spelling.admits c = true

/-- Where a plain name ends: the word behind it is over, and no further word belongs to it. -/
structure EndsAt (qualifies : Text → Bool) (name : QualifiedName) (behind : Text) : Prop where
  stops : ∀ c ∈ behind.head?, isWord c = false
  qualified : name.space.isSome → qualifies behind = true
  unqualified : name.space = none → ∀ rest second more, behind = '.' :: rest →
    Text.run? isWord rest = some (second, more) → qualifies more = false

variable {qualifies : Text → Bool} {text behind : Text} {name : QualifiedName}
  {spelling : Spelling} {space word : Text}

theorem fits_none_iff :
    (⟨none, word⟩ : QualifiedName).Fits spelling ↔
      word ≠ [] ∧ ∀ c ∈ word, spelling.admits c = true := by
  constructor
  · intro fits
    exact ⟨fits.name_ne_nil, fits.name_admitted⟩
  · intro ⟨filled, admitted⟩
    exact ⟨filled, admitted, by simp, by simp⟩

theorem fits_some_iff :
    (⟨some space, word⟩ : QualifiedName).Fits spelling ↔
      (space ≠ [] ∧ ∀ c ∈ space, spelling.admits c = true) ∧
        word ≠ [] ∧ ∀ c ∈ word, spelling.admits c = true := by
  constructor
  · intro fits
    exact ⟨⟨fits.space_ne_nil space rfl, fits.space_admitted space rfl⟩, fits.name_ne_nil,
      fits.name_admitted⟩
  · intro ⟨⟨filled, admitted⟩, filled', admitted'⟩
    refine ⟨filled', admitted', ?_, ?_⟩
    · intro other same
      cases same
      exact filled
    · intro other same
      cases same
      exact admitted

instance (spelling : Spelling) (name : QualifiedName) : Decidable (name.Fits spelling) :=
  decidable_of_iff ((name.name ≠ [] ∧ name.name.all spelling.admits) ∧
      ∀ space ∈ name.space, space ≠ [] ∧ space.all spelling.admits) <| by
    obtain ⟨space, word⟩ := name
    cases space with
    | none => simp [fits_none_iff]
    | some space => simp [fits_some_iff, and_comm]

/-- A name without a space ends in front of a dot behind which no word qualifies it. -/
theorem endsAt_dot_iff {rest : Text} :
    (⟨none, word⟩ : QualifiedName).EndsAt qualifies ('.' :: rest) ↔
      ∀ second more, Text.run? isWord rest = some (second, more) → qualifies more = false := by
  constructor
  · intro ends second more again
    exact ends.unqualified rfl rest second more rfl again
  · intro refused
    refine ⟨?_, by simp, ?_⟩
    · intro c first
      cases first
      rfl
    · intro _ rest second more same again
      cases same
      exact refused second more again

/-- Elsewhere a name without a space ends where its word does. -/
theorem endsAt_iff_of_ne_dot (other : ∀ rest, behind ≠ '.' :: rest) :
    (⟨none, word⟩ : QualifiedName).EndsAt qualifies behind ↔
      ∀ c ∈ behind.head?, isWord c = false := by
  constructor
  · intro ends
    exact ends.stops
  · intro stops
    exact ⟨stops, by simp, fun _ rest _ _ same => (other rest same).elim⟩

theorem endsAt_some_iff :
    (⟨some space, word⟩ : QualifiedName).EndsAt qualifies behind ↔
      (∀ c ∈ behind.head?, isWord c = false) ∧ qualifies behind = true := by
  constructor
  · intro ends
    exact ⟨ends.stops, ends.qualified rfl⟩
  · intro ⟨stops, qualified⟩
    exact ⟨stops, fun _ => qualified, by simp⟩

/-- A plain name that is read stands at the start of the text, in its joined form. -/
theorem spelled_of_readPlain? (read : readPlain? qualifies text = some (name, behind)) :
    text = name.joined ++ behind ∧ name.Fits .plain ∧ name.EndsAt qualifies behind := by
  unfold readPlain? at read
  split at read
  · cases read
  · rename_i first rest front
    obtain ⟨rfl, filled, words, _⟩ := Text.run?_eq_some_iff.mp front
    split at read
    · rename_i second more back
      obtain ⟨rfl, filled', words', stops⟩ := Text.run?_eq_some_iff.mp back
      split at read
      · rename_i accepted
        cases read
        refine ⟨?_, fits_some_iff.mpr ⟨⟨filled, words⟩, filled', words'⟩,
          endsAt_some_iff.mpr ⟨stops, accepted⟩⟩
        simp only [joined, List.append_assoc, List.cons_append]
      · rename_i refused
        cases read
        refine ⟨rfl, fits_none_iff.mpr ⟨filled, words⟩, endsAt_dot_iff.mpr ?_⟩
        intro second' more' again
        rw [back] at again
        cases again
        exact Bool.not_eq_true _ ▸ refused
    · rename_i unread
      cases read
      refine ⟨rfl, fits_none_iff.mpr ⟨filled, words⟩, endsAt_dot_iff.mpr ?_⟩
      intro second more again
      rw [unread] at again
      cases again
  · rename_i first rest other front
    obtain ⟨rfl, filled, words, stops⟩ := Text.run?_eq_some_iff.mp front
    cases read
    refine ⟨rfl, fits_none_iff.mpr ⟨filled, words⟩, (endsAt_iff_of_ne_dot ?_).mpr stops⟩
    intro rest same
    exact other rest same

/-- A joined plain name is read back where what follows ends it. -/
theorem readPlain?_joined (fits : name.Fits .plain) (ends : name.EndsAt qualifies behind) :
    readPlain? qualifies (name.joined ++ behind) = some (name, behind) := by
  obtain ⟨space, word⟩ := name
  have back : Text.run? isWord (word ++ behind) = some (word, behind) :=
    Text.run?_eq_some_iff.mpr ⟨rfl, fits.name_ne_nil, fits.name_admitted, ends.stops⟩
  cases space with
  | none =>
      simp only [readPlain?, joined, back]
      cases behind with
      | nil => rfl
      | cons c rest =>
          by_cases dot : c = '.'
          · subst dot
            cases again : Text.run? isWord rest with
            | none => simp only [again]
            | some found =>
                simp only [again, endsAt_dot_iff.mp ends found.1 found.2 again,
                  Bool.false_eq_true, ↓reduceIte]
          · simp [dot]
  | some space =>
      obtain ⟨⟨filled, admitted⟩, _⟩ := fits_some_iff.mp fits
      have front : Text.run? isWord (space ++ '.' :: (word ++ behind)) =
          some (space, '.' :: (word ++ behind)) := by
        refine Text.run?_eq_some_iff.mpr ⟨rfl, filled, admitted, ?_⟩
        intro c first
        cases first
        rfl
      simp only [readPlain?, joined, List.append_assoc, List.cons_append, front, back,
        ends.qualified rfl, ↓reduceIte]

/-- A plain name is read where its words stand and it ends. -/
theorem readPlain?_eq_some_iff :
    readPlain? qualifies text = some (name, behind) ↔
      text = name.joined ++ behind ∧ name.Fits .plain ∧ name.EndsAt qualifies behind := by
  constructor
  · exact spelled_of_readPlain?
  · intro ⟨whole, fits, ends⟩
    rw [whole]
    exact readPlain?_joined fits ends

/-- A name in brackets that is read stands at the start of the text, with its brackets. -/
theorem spelled_of_readBracketed? (read : readBracketed? text = some (name, behind)) :
    text = name.spelled .bracketed ++ behind ∧ name.Fits .bracketed := by
  unfold readBracketed? at read
  split at read
  · rename_i text
    split at read
    · rename_i first more front
      obtain ⟨rfl, filled, words, _⟩ := Text.run?_eq_some_iff.mp front
      cases read
      refine ⟨?_, fits_none_iff.mpr ⟨filled, words⟩⟩
      simp [spelled, joined]
    · rename_i first rest front
      obtain ⟨rfl, filled, words, _⟩ := Text.run?_eq_some_iff.mp front
      split at read
      · rename_i second more back
        obtain ⟨rfl, filled', words', _⟩ := Text.run?_eq_some_iff.mp back
        cases read
        refine ⟨?_, fits_some_iff.mpr ⟨⟨filled, words⟩, filled', words'⟩⟩
        simp [spelled, joined]
      · cases read
    · cases read
  · cases read

/-- A name in brackets is read back, whatever follows. -/
theorem readBracketed?_spelled (fits : name.Fits .bracketed) (behind : Text) :
    readBracketed? (name.spelled .bracketed ++ behind) = some (name, behind) := by
  obtain ⟨space, word⟩ := name
  have back : Text.run? isWordOrBlank (word ++ ']' :: behind) = some (word, ']' :: behind) := by
    refine Text.run?_eq_some_iff.mpr ⟨rfl, fits.name_ne_nil, fits.name_admitted, ?_⟩
    intro c first
    cases first
    rfl
  cases space with
  | none => simp [readBracketed?, spelled, joined, back]
  | some space =>
      obtain ⟨⟨filled, admitted⟩, _⟩ := fits_some_iff.mp fits
      have front : Text.run? isWordOrBlank (space ++ '.' :: (word ++ ']' :: behind)) =
          some (space, '.' :: (word ++ ']' :: behind)) := by
        refine Text.run?_eq_some_iff.mpr ⟨rfl, filled, admitted, ?_⟩
        intro c first
        cases first
        rfl
      simp [readBracketed?, spelled, joined, front, back]

/-- A name in brackets is read where it stands in brackets. -/
theorem readBracketed?_eq_some_iff :
    readBracketed? text = some (name, behind) ↔
      text = name.spelled .bracketed ++ behind ∧ name.Fits .bracketed := by
  constructor
  · exact spelled_of_readBracketed?
  · intro ⟨whole, fits⟩
    rw [whole]
    exact readBracketed?_spelled fits behind

/-- A name is read where it is spelled; a plain one must end there. -/
theorem read?_eq_some_iff :
    read? spelling qualifies text = some (name, behind) ↔
      text = name.spelled spelling ++ behind ∧ name.Fits spelling ∧
        (spelling = .plain → name.EndsAt qualifies behind) := by
  cases spelling with
  | plain => simpa [read?, spelled] using readPlain?_eq_some_iff
  | bracketed => simpa [read?] using readBracketed?_eq_some_iff

/-- The characters that names are spelled with. -/
def isNameCharacter (c : Char) : Bool :=
  isWordOrBlank c || c == '.' || c == '[' || c == ']'

/-- The spelling of a name consists of the characters of names. -/
theorem Fits.isNameCharacter (fits : name.Fits spelling) {c : Char}
    (member : c ∈ name.spelled spelling) : QualifiedName.isNameCharacter c = true := by
  have admitted (c : Char) (fine : spelling.admits c = true) :
      QualifiedName.isNameCharacter c = true := by
    cases spelling with
    | plain => simp [QualifiedName.isNameCharacter, isWordOrBlank_of_isWord fine]
    | bracketed =>
        rw [Spelling.admits] at fine
        simp [QualifiedName.isNameCharacter, fine]
  have joined (inside : c ∈ name.joined) : QualifiedName.isNameCharacter c = true := by
    unfold QualifiedName.joined at inside
    cases spaced : name.space with
    | none =>
        rw [spaced] at inside
        exact admitted c (fits.name_admitted c inside)
    | some space =>
        rw [spaced] at inside
        rcases List.mem_append.mp inside with early | late
        · exact admitted c (fits.space_admitted space spaced c early)
        · rcases List.mem_cons.mp late with rfl | late
          · rfl
          · exact admitted c (fits.name_admitted c late)
  cases spelling with
  | plain => exact joined member
  | bracketed =>
      rcases List.mem_cons.mp member with rfl | inside
      · rfl
      · rcases List.mem_append.mp inside with inside | last
        · exact joined inside
        · rw [List.mem_singleton.mp last]
          rfl

/-- A plain name starts with a character of a word, one in brackets with a bracket. -/
theorem Fits.spelled_eq_cons (fits : name.Fits spelling) :
    ∃ c rest, name.spelled spelling = c :: rest ∧
      match spelling with
      | .plain => isWord c = true
      | .bracketed => c = '[' := by
  cases spelling with
  | bracketed => exact ⟨'[', name.joined ++ [']'], rfl, rfl⟩
  | plain =>
      obtain ⟨space, word⟩ := name
      cases space with
      | none =>
          obtain ⟨c, rest, rfl⟩ := List.exists_cons_of_ne_nil fits.name_ne_nil
          exact ⟨c, rest, rfl, fits.name_admitted c List.mem_cons_self⟩
      | some space =>
          obtain ⟨c, rest, rfl⟩ := List.exists_cons_of_ne_nil (fits.space_ne_nil space rfl)
          exact ⟨c, rest ++ '.' :: word, rfl, fits.space_admitted _ rfl c List.mem_cons_self⟩

/-- Where a name is spelled, some name is read. -/
theorem Fits.read?_isSome (fits : name.Fits spelling) (rest : Text) :
    (read? spelling qualifies (name.spelled spelling ++ rest)).isSome := by
  cases spelling with
  | bracketed =>
      rw [read?, readBracketed?_eq_some_iff.mpr ⟨rfl, fits⟩]
      rfl
  | plain =>
      obtain ⟨c, tail, start, word⟩ := fits.spelled_eq_cons
      rw [start, read?, readPlain?]
      cases run : Text.run? isWord (c :: tail ++ rest) with
      | none =>
          have outside := Text.run?_eq_none_iff.mp run c rfl
          rw [word] at outside
          exact Bool.noConfusion outside
      | some found =>
          split
          · contradiction
          · split
            · split <;> rfl
            · rfl
          · rfl

end QualifiedName

end NoteQuery
