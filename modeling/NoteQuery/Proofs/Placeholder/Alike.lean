import Mathlib.Data.List.Forall2
import NoteQuery.Proofs.Placeholder.Numerals

/-! # Texts that differ in the numbers of placeholders

Two texts are alike when they are equal up to the numbers of some placeholders. A place outside of
placeholders in one of them has its counterpart in the other (`Text.Alike.split_outer`), so a reader
that stops at braces reads the same from both and leaves texts that are alike.
-/

namespace NoteQuery.Text

/-- Two texts are equal up to the numbers of placeholders. -/
inductive Alike : Text → Text → Prop where
  | nil : Alike [] []
  | cons (c : Char) {first second : Text} (rest : Alike first second) :
      Alike (c :: first) (c :: second)
  | placeholder (kind : Placeholder) (number other : Nat) {first second : Text}
      (rest : Alike first second) :
      Alike (kind.numbered number ++ first) (kind.numbered other ++ second)

namespace Alike

variable {first second front behind : Text}

theorem refl (text : Text) : Alike text text := by
  induction text with
  | nil => exact .nil
  | cons c rest ih => exact .cons c ih

theorem symm (alike : Alike first second) : Alike second first := by
  induction alike with
  | nil => exact .nil
  | cons c _ ih => exact .cons c ih
  | placeholder kind number other _ ih => exact .placeholder kind other number ih

/-- Alike texts behind alike texts make up alike texts. -/
theorem append (alike : Alike first second) {later later' : Text} (rest : Alike later later') :
    Alike (first ++ later) (second ++ later') := by
  induction alike with
  | nil => exact rest
  | cons c _ ih => exact .cons c ih
  | placeholder kind number other _ ih =>
      rw [List.append_assoc, List.append_assoc]
      exact .placeholder kind number other ih

/-- The same text may stand in front of alike texts. -/
theorem append_left (front : Text) (alike : Alike first second) :
    Alike (front ++ first) (front ++ second) :=
  (refl front).append alike

/-- Alike texts start with the same character, since a placeholder starts with a brace. -/
theorem head?_eq (alike : Alike first second) : first.head? = second.head? := by
  cases alike <;> rfl

/-- Only the empty text is alike to the empty text. -/
theorem eq_nil_iff (alike : Alike first second) : first = [] ↔ second = [] := by
  rw [← List.head?_eq_none_iff, ← List.head?_eq_none_iff, alike.head?_eq]

/-- Alike texts have the same brace-free texts at their starts. -/
theorem split_front (alike : Alike (front ++ behind) second) (unbraced : '{' ∉ front) :
    ∃ behind', second = front ++ behind' ∧ Alike behind behind' := by
  induction front generalizing second with
  | nil => exact ⟨second, rfl, alike⟩
  | cons c front ih =>
      rw [List.mem_cons, not_or] at unbraced
      generalize whole : c :: front ++ behind = text at alike
      cases alike with
      | nil => cases whole
      | cons d rest =>
          simp only [List.cons_append, List.cons.injEq] at whole
          obtain ⟨rfl, rfl⟩ := whole
          obtain ⟨behind', rfl, alike⟩ := ih rest unbraced.2
          exact ⟨behind', rfl, alike⟩
      | placeholder kind number other rest =>
          simp only [Placeholder.numbered, List.cons_append, List.cons.injEq] at whole
          exact (unbraced.1 whole.1.symm).elim

/-- A character that no placeholder holds has its counterpart. -/
theorem split_outer {c : Char} (outer : Placeholder.isInner c = false) (other : c ≠ '{')
    (alike : Alike (front ++ c :: behind) second) :
    ∃ front' behind', second = front' ++ c :: behind' ∧ Alike front front' ∧
      Alike behind behind' := by
  generalize whole : front ++ c :: behind = text at alike
  induction alike generalizing front with
  | nil => simp at whole
  | @cons d first second rest ih =>
      cases front with
      | nil =>
          simp only [List.nil_append, List.cons.injEq] at whole
          obtain ⟨rfl, rfl⟩ := whole
          exact ⟨[], second, rfl, .nil, rest⟩
      | cons e front =>
          simp only [List.cons_append, List.cons.injEq] at whole
          obtain ⟨rfl, whole⟩ := whole
          obtain ⟨front', behind', rfl, before, after⟩ := ih whole
          exact ⟨e :: front', behind', rfl, .cons e before, after⟩
  | placeholder kind number fresh rest ih =>
      rcases List.append_eq_append_iff.mp whole with ⟨cut, start, ends⟩ | ⟨later, start, ends⟩
      · cases cut with
        | nil =>
            rw [List.append_nil] at start
            obtain ⟨front', behind', rfl, before, after⟩ := ih ((List.nil_append _).trans ends)
            rw [← start]
            refine ⟨kind.numbered fresh ++ front', behind', by rw [List.append_assoc], ?_, after⟩
            rw [← List.append_nil (kind.numbered number)]
            exact .placeholder kind number fresh before
        | cons d cut =>
            rw [List.cons_append, List.cons.injEq] at ends
            have inside : c ∈ kind.numbered number := by
              rw [start, ends.1]
              simp
            exact (Placeholder.not_mem_numbered outer other inside).elim
      · obtain ⟨front', behind', rfl, before, after⟩ := ih ends.symm
        rw [start]
        exact ⟨kind.numbered fresh ++ front', behind', by rw [List.append_assoc],
          .placeholder kind number fresh before, after⟩

/-- Alike texts hold the same characters, but for those of placeholders. -/
theorem mem_of_outer {c : Char} (outer : Placeholder.isInner c = false) (other : c ≠ '{')
    (alike : Alike first second) (member : c ∈ first) : c ∈ second := by
  obtain ⟨front, behind, rfl⟩ := List.append_of_mem member
  obtain ⟨front', behind', rfl, _, _⟩ := alike.split_outer outer other
  simp

end Alike

/-! Readers of texts that are alike. -/

section Readers

variable {text text' rest : Text}

/-- A literal without an opening brace is skipped in both of two alike texts. -/
theorem isPrefixOf?_alike {literal : Text} (unbraced : '{' ∉ literal) (alike : Alike text text')
    (read : literal.isPrefixOf? text = some rest) :
    ∃ rest', literal.isPrefixOf? text' = some rest' ∧ Alike rest rest' := by
  rw [List.isPrefixOf?_eq_some_iff_append_eq] at read
  subst read
  obtain ⟨rest', rfl, behind⟩ := alike.split_front unbraced
  exact ⟨rest', List.isPrefixOf?_eq_some_iff_append_eq.mpr rfl, behind⟩

/-- The same run is read from alike texts, if an opening brace ends it. -/
theorem run?_alike {member : Char → Bool} (unbraced : member '{' = false)
    (alike : Alike text text') {run : Text} (read : run? member text = some (run, rest)) :
    ∃ rest', run? member text' = some (run, rest') ∧ Alike rest rest' := by
  obtain ⟨rfl, filled, inside, stops⟩ := run?_eq_some_iff.mp read
  have absent : '{' ∉ run := by
    intro brace
    rw [inside _ brace] at unbraced
    cases unbraced
  obtain ⟨rest', rfl, behind⟩ := alike.split_front absent
  rw [behind.head?_eq] at stops
  exact ⟨rest', run?_eq_some_iff.mpr ⟨rfl, filled, inside, stops⟩, behind⟩

/-- Where no run is read, none is read from a text that is alike. -/
theorem run?_alike_none {member : Char → Bool} (alike : Alike text text')
    (unread : run? member text = none) : run? member text' = none := by
  rw [run?_eq_none_iff] at unread ⊢
  rwa [← alike.head?_eq]

/-- A character that is no opening brace is skipped in both of two alike texts, or in neither. -/
theorem skipOptional_alike {character : Char} (unbraced : character ≠ '{')
    (alike : Alike text text') {present : Bool}
    (read : skipOptional character text = (present, rest)) :
    ∃ rest', skipOptional character text' = (present, rest') ∧ Alike rest rest' := by
  obtain ⟨rfl, stops⟩ := skipOptional_eq_iff.mp read
  have absent : '{' ∉ optional character present := by
    intro brace
    cases present with
    | false => cases brace
    | true => exact unbraced (List.mem_singleton.mp brace).symm
  obtain ⟨rest', rfl, behind⟩ := alike.split_front absent
  rw [behind.head?_eq] at stops
  exact ⟨rest', skipOptional_eq_iff.mpr ⟨rfl, stops⟩, behind⟩

/-- A mark that no placeholder holds cuts alike texts into alike texts. -/
theorem cut?_alike {mark : Char} (outer : Placeholder.isInner mark = false) (other : mark ≠ '{')
    (alike : Alike text text') {front : Text} (read : cut? mark text = some (front, rest)) :
    ∃ front' rest', cut? mark text' = some (front', rest') ∧ Alike front front' ∧
      Alike rest rest' := by
  obtain ⟨rfl, absent⟩ := cut?_eq_some_iff.mp read
  obtain ⟨front', rest', rfl, before, after⟩ := alike.split_outer outer other
  have absent' : mark ∉ front' := fun member => absent (before.symm.mem_of_outer outer other member)
  exact ⟨front', rest', cut?_eq_some_iff.mpr ⟨rfl, absent'⟩, before, after⟩

/-- A mark that no placeholder holds is in both of two alike texts, or in neither. -/
theorem cut?_alike_none {mark : Char} (outer : Placeholder.isInner mark = false)
    (other : mark ≠ '{') (alike : Alike text text') (unread : cut? mark text = none) :
    cut? mark text' = none := by
  rw [cut?_eq_none_iff] at unread ⊢
  intro member
  exact unread (alike.symm.mem_of_outer outer other member)

/-- Trimming at the start leaves alike texts, since a placeholder ends the blanks. -/
theorem trimStart_alike (alike : Alike text text') : Alike text.trimStart text'.trimStart := by
  induction alike with
  | nil => exact .nil
  | @cons c first second rest ih =>
      by_cases blank : isBlank c = true
      · simpa [trimStart, blank] using ih
      · simpa [trimStart, blank] using Alike.cons c rest
  | placeholder kind number other rest => exact .placeholder kind number other rest

/-- Nothing is trimmed in front of a character that is no blank. -/
theorem trimEnd_concat_append (front : Text) {last : Char} (filled : isBlank last = false)
    (text : Text) : trimEnd (front ++ [last] ++ text) = front ++ [last] ++ trimEnd text := by
  simp only [trimEnd, List.reverse_append, List.dropWhile_append]
  by_cases empty : (text.reverse.dropWhile isBlank).isEmpty = true
  · simp [List.isEmpty_iff.mp empty, filled]
  · simp [empty]

/-- A character is trimmed at the end exactly when it is a blank and all that follows is trimmed. -/
theorem trimEnd_cons (c : Char) (text : Text) :
    trimEnd (c :: text) =
      if trimEnd text = [] then (if isBlank c then [] else [c]) else c :: trimEnd text := by
  simp only [trimEnd, List.reverse_cons, List.dropWhile_append, List.reverse_eq_nil_iff,
    List.isEmpty_iff]
  by_cases empty : text.reverse.dropWhile isBlank = []
  · by_cases blank : isBlank c = true <;> simp [empty, blank]
  · simp [empty]

/-- Nothing is trimmed in front of the end of a placeholder. -/
theorem trimEnd_numbered_append (kind : Placeholder) (number : Nat) (text : Text) :
    trimEnd (kind.numbered number ++ text) = kind.numbered number ++ trimEnd text :=
  trimEnd_concat_append ('{' :: (kind.word ++ ofNat number)) (by decide) text

/-- Trimming at the end leaves alike texts. -/
theorem trimEnd_alike (alike : Alike text text') : Alike text.trimEnd text'.trimEnd := by
  induction alike with
  | nil => exact .nil
  | @cons c first second rest ih =>
      rw [trimEnd_cons, trimEnd_cons]
      by_cases empty : first.trimEnd = []
      · rw [if_pos empty, if_pos (ih.eq_nil_iff.mp empty)]
        exact .refl _
      · rw [if_neg empty, if_neg (fun nothing => empty (ih.eq_nil_iff.mpr nothing))]
        exact .cons c ih
  | placeholder kind number other rest ih =>
      rw [trimEnd_numbered_append, trimEnd_numbered_append]
      exact .placeholder kind number other ih

/-- Trimmed texts are alike when the texts are. -/
theorem trim_alike (alike : Alike text text') : Alike text.trim text'.trim :=
  trimEnd_alike (trimStart_alike alike)

/-- A text without the separator belongs to the first of the fragments of what follows it. -/
theorem splitOn_append_of_not_mem {separator : Char} {front : Text} (absent : separator ∉ front)
    (text : Text) :
    (front ++ text).splitOn separator = (text.splitOn separator).modifyHead (front ++ ·) := by
  induction front with
  | nil =>
      rw [List.nil_append]
      cases text.splitOn separator <;> rfl
  | cons c front ih =>
      rw [List.mem_cons, not_or] at absent
      rw [List.cons_append, List.splitOn_cons_eq_if_modifyHead, ih absent.2]
      have different : (c == separator) = false := beq_false_of_ne (Ne.symm absent.1)
      rw [different]
      cases text.splitOn separator <;> rfl

/-- A separator that no placeholder holds cuts alike texts into fragments that are alike one by
one. -/
theorem splitOn_alike {separator : Char} (outer : Placeholder.isInner separator = false)
    (other : separator ≠ '{') (alike : Alike text text') :
    List.Forall₂ Alike (text.splitOn separator) (text'.splitOn separator) := by
  have extend {firsts seconds : List Text} (fragments : List.Forall₂ Alike firsts seconds)
      {front front' : Text} (before : Alike front front') :
      List.Forall₂ Alike (firsts.modifyHead (front ++ ·)) (seconds.modifyHead (front' ++ ·)) := by
    cases fragments with
    | nil => exact .nil
    | cons first rest => exact .cons (before.append first) rest
  induction alike with
  | nil => exact .cons .nil .nil
  | @cons c first second rest ih =>
      rw [List.splitOn_cons_eq_if_modifyHead, List.splitOn_cons_eq_if_modifyHead]
      by_cases same : (c == separator) = true
      · rw [if_pos same, if_pos same]
        exact .cons .nil ih
      · rw [if_neg same, if_neg same]
        exact extend ih (.refl [c])
  | placeholder kind number fresh rest ih =>
      have absent (number : Nat) : separator ∉ kind.numbered number :=
        Placeholder.not_mem_numbered outer other
      rw [splitOn_append_of_not_mem (absent number), splitOn_append_of_not_mem (absent fresh)]
      refine extend ih ?_
      have placeholders := Alike.placeholder kind number fresh .nil
      rwa [List.append_nil, List.append_nil] at placeholders

end Readers

end NoteQuery.Text
