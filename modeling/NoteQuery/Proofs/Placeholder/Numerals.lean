import Mathlib.Data.List.Infix
import NoteQuery.Placeholder
import NoteQuery.Proofs.Text.Reading

/-! # The placeholders in a text

The numerals of a text are the decimal numbers in its placeholders of one kind. Writing a
placeholder in front of a text adds its own numeral to those of the text
(`Placeholder.numerals_numbered_append`), and a placeholder stands in a text exactly when its
numeral is among those of the text (`Placeholder.numbered_infix_iff`).
-/

namespace NoteQuery.Placeholder

/-- The numeral of the placeholder at the start of a text. -/
def read? (kind : Placeholder) (text : Text) : Option Text :=
  match ('{' :: kind.word).isPrefixOf? text with
  | none => none
  | some digits =>
      match Text.run? Char.isDigit digits with
      | some (numeral, '}' :: _) => some numeral
      | _ => none

/-- The numerals of the placeholders of one kind in a text, from the left. -/
def numerals (kind : Placeholder) : Text → List Text
  | [] => []
  | c :: rest => (kind.read? (c :: rest)).toList ++ kind.numerals rest

/-- The numbers of the placeholders of one kind in a text, from the left. -/
def numbers (kind : Placeholder) (text : Text) : List Nat :=
  (kind.numerals text).map fun numeral => Nat.ofDigitChars 10 numeral 0

/-- The characters of placeholders behind the opening brace. -/
def isInner (c : Char) : Bool :=
  c.isDigit || c == '}' || c ∈ ['t', 'a', 'g', 'r', 'e', 'x', 'p']

/-- The word of a placeholder and its closing brace are inner characters. -/
theorem isInner_of_mem_word {kind : Placeholder} {c : Char} (member : c ∈ kind.word) :
    isInner c = true := by
  cases kind <;> simp only [word, List.mem_cons, List.not_mem_nil, or_false] at member <;>
    rcases member with rfl | rfl | rfl | rfl <;> rfl

/-- The numeral of a number consists of digits. -/
theorem isDigit_of_mem_ofNat {number : Nat} {c : Char} (member : c ∈ Text.ofNat number) :
    c.isDigit = true :=
  Nat.isDigit_of_mem_toDigits (by decide) (by decide) member

/-- Different numbers have different numerals. -/
theorem ofNat_injective : Function.Injective Text.ofNat := by
  intro first second same
  have read := congrArg (fun numeral => Nat.ofDigitChars 10 numeral 0) same
  simpa only [Text.ofNat, Nat.ofDigitChars_ten_toDigits] using read

/-- Behind its brace a placeholder consists of inner characters. -/
theorem isInner_of_mem_tail {kind : Placeholder} {number : Nat} {c : Char}
    (member : c ∈ (kind.numbered number).tail) : isInner c = true := by
  simp only [numbered, List.tail_cons, List.append_assoc, List.mem_append, List.mem_cons,
    List.not_mem_nil, or_false] at member
  rcases member with inside | digit | rfl
  · exact isInner_of_mem_word inside
  · simp [isInner, isDigit_of_mem_ofNat digit]
  · rfl

/-- No inner character opens a placeholder. -/
theorem not_mem_tail_of_isInner {kind : Placeholder} {number : Nat} {c : Char}
    (outer : isInner c = false) : c ∉ (kind.numbered number).tail := by
  intro member
  rw [isInner_of_mem_tail member] at outer
  exact Bool.noConfusion outer

/-- A placeholder holds only a brace and inner characters. -/
theorem not_mem_numbered {kind : Placeholder} {number : Nat} {c : Char}
    (outer : isInner c = false) (other : c ≠ '{') : c ∉ kind.numbered number := by
  intro member
  rcases List.mem_cons.mp member with brace | inner
  · exact other brace
  · exact not_mem_tail_of_isInner outer inner

/-- A numeral is read where a brace, the word, the digits and a brace stand. -/
theorem read?_eq_some_iff {kind : Placeholder} {text numeral : Text} :
    kind.read? text = some numeral ↔
      (∃ rest, text = '{' :: (kind.word ++ numeral ++ '}' :: rest)) ∧ numeral ≠ [] ∧
        ∀ c ∈ numeral, c.isDigit = true := by
  constructor
  · intro read
    unfold read? at read
    split at read
    · simp at read
    · rename_i digits opened
      split at read
      · rename_i found rest run
        simp only [Option.some.injEq] at read
        subst read
        obtain ⟨whole, filled, inside, _⟩ := Text.run?_eq_some_iff.mp run
        refine ⟨⟨rest, ?_⟩, filled, inside⟩
        rw [← List.append_eq_of_isPrefixOf?_eq_some opened, whole]
        simp
      · simp at read
  · rintro ⟨⟨rest, rfl⟩, filled, inside⟩
    have opened : ('{' :: kind.word).isPrefixOf? ('{' :: (kind.word ++ numeral ++ '}' :: rest)) =
        some (numeral ++ '}' :: rest) := List.isPrefixOf?_eq_some_iff_append_eq.mpr (by simp)
    have run : Text.run? Char.isDigit (numeral ++ '}' :: rest) = some (numeral, '}' :: rest) :=
      Text.run?_eq_some_iff.mpr ⟨rfl, filled, inside, by rintro c ⟨⟩; rfl⟩
    simp only [read?, opened, run]

/-- The numeral of a placeholder is read from it. -/
theorem read?_numbered (kind : Placeholder) (number : Nat) (rest : Text) :
    kind.read? (kind.numbered number ++ rest) = some (Text.ofNat number) :=
  read?_eq_some_iff.mpr ⟨⟨rest, by simp [numbered]⟩, Nat.toDigits_ne_nil,
    fun _ => isDigit_of_mem_ofNat⟩

/-- A text starts with a placeholder when a numeral is read from it. -/
theorem startsText_eq (kind : Placeholder) (text : Text) :
    kind.startsText text = (kind.read? text).isSome := by
  unfold startsText read?
  cases ('{' :: kind.word).isPrefixOf? text with
  | none => rfl
  | some digits =>
      dsimp only
      cases Text.run? Char.isDigit digits with
      | none => rfl
      | some result =>
          obtain ⟨numeral, rest⟩ := result
          cases rest with
          | nil => rfl
          | cons c rest =>
              by_cases closing : c = '}'
              · subst closing
                rfl
              · simp [closing]

/-- A placeholder of one kind is none of another kind. -/
theorem read?_numbered_of_ne {kind other : Placeholder} (different : other ≠ kind) (number : Nat)
    (rest : Text) : kind.read? (other.numbered number ++ rest) = none := by
  cases kind <;> cases other <;> first | exact (different rfl).elim | rfl

/-- A placeholder is read from its opening brace on only. -/
theorem read?_cons_of_ne {kind : Placeholder} {c : Char} (other : c ≠ '{') (rest : Text) :
    kind.read? (c :: rest) = none := by
  simp [read?, List.isPrefixOf?, other.symm]

/-- Characters that open no placeholder add no numeral. -/
theorem numerals_append_of_not_mem {kind : Placeholder} {front : Text} (closed : '{' ∉ front)
    (rest : Text) : kind.numerals (front ++ rest) = kind.numerals rest := by
  induction front with
  | nil => rfl
  | cons c front ih =>
      rw [List.mem_cons, not_or] at closed
      rw [List.cons_append, numerals, read?_cons_of_ne (Ne.symm closed.1), ih closed.2]
      rfl

/-- A placeholder in front of a text adds its numeral to those of its kind. -/
theorem numerals_numbered_append (kind other : Placeholder) (number : Nat) (rest : Text) :
    kind.numerals (other.numbered number ++ rest) =
      (if other = kind then [Text.ofNat number] else []) ++ kind.numerals rest := by
  have inner : '{' ∉ (other.numbered number).tail := not_mem_tail_of_isInner rfl
  have unfolded : kind.numerals (other.numbered number ++ rest) =
      (kind.read? (other.numbered number ++ rest)).toList ++
        kind.numerals ((other.numbered number).tail ++ rest) := rfl
  rw [unfolded, numerals_append_of_not_mem inner]
  by_cases same : other = kind
  · subst same
    rw [read?_numbered, if_pos rfl]
    rfl
  · rw [read?_numbered_of_ne same, if_neg same]
    rfl

/-- A numeral is among those of a text exactly when it is read somewhere in the text. -/
theorem mem_numerals_iff {kind : Placeholder} {text numeral : Text} :
    numeral ∈ kind.numerals text ↔ ∃ place, place <:+ text ∧ kind.read? place = some numeral := by
  induction text with
  | nil =>
      simp only [numerals, List.not_mem_nil, false_iff, not_exists, not_and]
      intro place suffix read
      rw [List.suffix_nil.mp suffix] at read
      simp [read?, List.isPrefixOf?] at read
  | cons c rest ih =>
      rw [numerals, List.mem_append, Option.mem_toList, ih]
      constructor
      · rintro (here | ⟨place, suffix, read⟩)
        · exact ⟨c :: rest, List.suffix_refl _, here⟩
        · exact ⟨place, suffix.trans (List.suffix_cons c rest), read⟩
      · rintro ⟨place, suffix, read⟩
        rcases List.suffix_cons_iff.mp suffix with rfl | later
        · exact .inl read
        · exact .inr ⟨place, later, read⟩

/-- A placeholder stands in a text exactly when its numeral is among those of the text. -/
theorem numbered_infix_iff {kind : Placeholder} {number : Nat} {text : Text} :
    kind.numbered number <:+: text ↔ Text.ofNat number ∈ kind.numerals text := by
  rw [mem_numerals_iff]
  constructor
  · rintro ⟨front, rest, rfl⟩
    refine ⟨kind.numbered number ++ rest, ⟨front, by simp⟩, read?_numbered kind number rest⟩
  · rintro ⟨place, ⟨front, rfl⟩, read⟩
    obtain ⟨⟨rest, rfl⟩, _⟩ := read?_eq_some_iff.mp read
    exact ⟨front, rest, by simp [numbered]⟩

/-- A text in which no placeholder begins has no numerals. -/
theorem numerals_eq_nil {kind : Placeholder} {text : Text}
    (absent : ¬ ('{' :: kind.word) <:+: text) : kind.numerals text = [] := by
  refine List.eq_nil_iff_forall_not_mem.mpr fun numeral member => absent ?_
  obtain ⟨place, ⟨front, rfl⟩, read⟩ := mem_numerals_iff.mp member
  obtain ⟨⟨rest, rfl⟩, _⟩ := read?_eq_some_iff.mp read
  exact ⟨front, numeral ++ '}' :: rest, by simp⟩

end NoteQuery.Placeholder
