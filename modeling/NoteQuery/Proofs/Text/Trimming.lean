import NoteQuery.Proofs.Text.Reading

/-! # Trimming

Trimming keeps a text with no blank at its ends (`Text.trim_eq_self_iff`) and takes the blanks
around such a text away (`Text.trim_cons_blank`, `Text.trim_append_blank`). What it leaves is such a
text (`Text.trim_trim`).
-/

namespace NoteQuery.Text

variable {text front behind : Text}

/-- Further blanks at the start are trimmed with the others. -/
theorem trimStart_append_of_blank (blank : ∀ c ∈ front, isBlank c = true) :
    trimStart (front ++ text) = trimStart text :=
  List.dropWhile_append_of_pos blank

/-- Further blanks at the end are trimmed with the others. -/
theorem trimEnd_append_of_blank (blank : ∀ c ∈ behind, isBlank c = true) :
    trimEnd (text ++ behind) = trimEnd text := by
  rw [trimEnd, trimEnd, List.reverse_append, List.dropWhile_append_of_pos]
  intro c member
  exact blank c (List.mem_reverse.mp member)

/-- What is taken from the end of a text are blanks. -/
theorem exists_trimEnd_append (text : Text) :
    ∃ blanks, text = text.trimEnd ++ blanks ∧ ∀ c ∈ blanks, isBlank c = true := by
  refine ⟨(text.reverse.takeWhile isBlank).reverse, ?_, ?_⟩
  · rw [trimEnd, ← List.reverse_append, List.takeWhile_append_dropWhile, List.reverse_reverse]
  · intro c member
    exact List.mem_takeWhile_imp (List.mem_reverse.mp member)

/-- Trimming at the start changes nothing exactly when no blank stands there. -/
theorem trimStart_eq_self_iff :
    trimStart text = text ↔ ∀ c ∈ text.head?, isBlank c = false := by
  cases text with
  | nil => simp [trimStart]
  | cons c rest =>
      cases blank : isBlank c with
      | false => simp [trimStart, blank]
      | true =>
          have shorter := (List.dropWhile_suffix isBlank (l := rest)).length_le
          simp only [trimStart, List.dropWhile_cons, blank, ↓reduceIte, List.head?_cons,
            Option.mem_def, Option.some.injEq, forall_eq', Bool.true_eq_false, iff_false]
          intro same
          rw [same, List.length_cons] at shorter
          omega

/-- Trimming at the end changes nothing exactly when no blank stands there. -/
theorem trimEnd_eq_self_iff :
    trimEnd text = text ↔ ∀ c ∈ text.getLast?, isBlank c = false := by
  rw [← List.head?_reverse, ← trimStart_eq_self_iff, trimEnd, trimStart, ← List.reverse_inj,
    List.reverse_reverse]

/-- A text is kept when neither of its ends is a blank. -/
theorem trim_eq_self_iff :
    trim text = text ↔
      (∀ c ∈ text.head?, isBlank c = false) ∧ ∀ c ∈ text.getLast?, isBlank c = false := by
  rw [← trimStart_eq_self_iff, ← trimEnd_eq_self_iff]
  constructor
  · intro same
    obtain ⟨blanks, whole, _⟩ := exists_trimEnd_append text.trimStart
    have start : trimStart text = text := by
      refine (List.dropWhile_suffix isBlank).eq_of_length_le ?_
      rw [trim] at same
      have longer := congrArg List.length whole
      rw [same, List.length_append] at longer
      change text.length ≤ text.trimStart.length
      omega
    rw [trim, start] at same
    exact ⟨start, same⟩
  · rintro ⟨start, ends⟩
    rw [trim, start, ends]

theorem trim_cons_blank {c : Char} (blank : isBlank c = true) (text : Text) :
    trim (c :: text) = trim text := by
  rw [trim, trimStart, List.dropWhile_cons_of_pos blank, trim, trimStart]

/-- Blanks behind a text that has none at its ends are taken away. -/
theorem trim_append_blank (trimmed : trim text = text) (blank : ∀ c ∈ behind, isBlank c = true) :
    trim (text ++ behind) = text := by
  obtain ⟨start, ends⟩ := trim_eq_self_iff.mp trimmed
  cases text with
  | nil =>
      rw [List.nil_append, ← List.append_nil behind, trim, trimStart_append_of_blank blank]
      rfl
  | cons c rest =>
      have kept : trimStart (c :: rest ++ behind) = c :: rest ++ behind :=
        trimStart_eq_self_iff.mpr start
      rw [trim, kept, trimEnd_append_of_blank blank, trimEnd_eq_self_iff.mpr ends]

/-- What is taken from the ends of a text are blanks. -/
theorem exists_append_trim_append (text : Text) :
    ∃ front behind, text = front ++ (text.trim ++ behind) ∧ (∀ c ∈ front, isBlank c = true) ∧
      ∀ c ∈ behind, isBlank c = true := by
  obtain ⟨behind, whole, blank⟩ := exists_trimEnd_append text.trimStart
  refine ⟨text.takeWhile isBlank, behind, ?_, fun c => List.mem_takeWhile_imp, blank⟩
  rw [trim, ← whole, trimStart, List.takeWhile_append_dropWhile]

/-- Blanks in front of a text are trimmed. -/
theorem trim_append_of_blank (blank : ∀ c ∈ front, isBlank c = true) (text : Text) :
    trim (front ++ text) = trim text := by
  rw [trim, trimStart_append_of_blank blank, trim]

/-- A trimmed text has nothing left to trim. -/
theorem trim_trim (text : Text) : text.trim.trim = text.trim := by
  obtain ⟨behind, whole, _⟩ := exists_trimEnd_append text.trimStart
  refine trim_eq_self_iff.mpr ⟨?_, ?_⟩
  · intro c first
    have stopped := List.head?_dropWhile_not isBlank text
    have start : text.trimStart.head? = some c := by
      rw [whole, List.head?_append, ← trim, first]
      rfl
    rw [← trimStart, start] at stopped
    simpa using stopped
  · intro c last
    have stopped := List.head?_dropWhile_not isBlank text.trimStart.reverse
    rw [trim, trimEnd, List.getLast?_reverse] at last
    rw [last] at stopped
    simpa using stopped

end NoteQuery.Text
