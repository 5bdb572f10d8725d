import NoteQuery.Proofs.Scan.Balance
import NoteQuery.Proofs.Text.Trimming

/-! # Texts whose braces are those of placeholders

When nobody typed a brace, every opening brace in a text starts a placeholder that compiling wrote
(`OnlyPlaceholders`). Numbering the pieces of such a text keeps this, and so does everything that
is done to the tag filters of an attribute: cutting at a character that no placeholder holds,
splitting, and trimming.
-/

namespace NoteQuery

/-- Every opening brace of a text starts a placeholder of one of some kinds. -/
def OnlyPlaceholders (kinds : List Placeholder) (text : Text) : Prop :=
  ∀ inside, '{' :: inside <:+ text →
    ∃ kind ∈ kinds, ∃ number, kind.numbered number <+: '{' :: inside

namespace Placeholder

/-- A text starts with a placeholder when its numeral is read. -/
theorem numbered_prefix_iff {kind : Placeholder} {number : Nat} {text : Text} :
    kind.numbered number <+: text ↔ kind.read? text = some (Text.ofNat number) := by
  constructor
  · rintro ⟨rest, rfl⟩
    exact read?_numbered kind number rest
  · intro read
    obtain ⟨⟨rest, rfl⟩, _⟩ := read?_eq_some_iff.mp read
    exact ⟨rest, by simp [numbered]⟩

/-- No placeholder holds a blank. -/
theorem isInner_of_isBlank {c : Char} (blank : isBlank c = true) : isInner c = false := by
  by_contra inner
  simp only [isInner, Bool.not_eq_false, Bool.or_eq_true, beq_iff_eq, decide_eq_true_eq] at inner
  rcases inner with (digit | rfl) | letter
  · have word : isWord c = true := by
      simp [isWord, Char.isAlphanum, digit]
    rw [isBlank_of_isWord word] at blank
    cases blank
  · cases blank
  · simp only [List.mem_cons, List.not_mem_nil, or_false] at letter
    rcases letter with rfl | rfl | rfl | rfl | rfl | rfl | rfl <;> cases blank

end Placeholder

namespace OnlyPlaceholders

variable {kinds : List Placeholder} {text front behind : Text} {c : Char}

theorem of_not_mem (unbraced : '{' ∉ text) : OnlyPlaceholders kinds text :=
  fun _ suffix => (unbraced (suffix.mem List.mem_cons_self)).elim

/-- The end of a text opens no other braces than the text. -/
theorem of_suffix (only : OnlyPlaceholders kinds text) (suffix : behind <:+ text) :
    OnlyPlaceholders kinds behind :=
  fun inside place => only inside (place.trans suffix)

/-- A text may be cut in front of a character that no placeholder holds. -/
theorem of_append (only : OnlyPlaceholders kinds (front ++ behind))
    (outer : ∀ c ∈ behind.head?, Placeholder.isInner c = false) :
    OnlyPlaceholders kinds front := by
  rintro inside ⟨before, rfl⟩
  obtain ⟨kind, member, number, rest, same⟩ := only (inside ++ behind) ⟨before, by simp⟩
  refine ⟨kind, member, number, ?_⟩
  rw [← List.cons_append] at same
  rcases List.append_eq_append_iff.mp same with ⟨cut, whole, _⟩ | ⟨cut, whole, ends⟩
  · exact ⟨cut, whole.symm⟩
  · cases cut with
    | nil =>
        rw [whole, List.append_nil]
    | cons c cut =>
        -- The placeholder would reach over the place where the text is cut.
        have inner : c ∈ (kind.numbered number).tail := by
          rw [whole]
          simp
        have first : c ∈ behind.head? := by rw [ends]; rfl
        exact (Placeholder.not_mem_tail_of_isInner (outer c first) inner).elim

/-- A character that opens no brace makes no difference. -/
theorem cons (only : OnlyPlaceholders kinds text) (other : c ≠ '{') :
    OnlyPlaceholders kinds (c :: text) := by
  intro inside suffix
  rcases List.suffix_cons_iff.mp suffix with same | behind
  · exact (other (List.cons.inj same).1.symm).elim
  · exact only inside behind

/-- A text without an opening brace may be put in front. -/
theorem append_of_not_mem (only : OnlyPlaceholders kinds text) (unbraced : '{' ∉ front) :
    OnlyPlaceholders kinds (front ++ text) := by
  induction front with
  | nil => exact only
  | cons c front ih =>
      rw [List.mem_cons, not_or] at unbraced
      exact (ih unbraced.2).cons (Ne.symm unbraced.1)

/-- A placeholder may be written in front of a text. -/
theorem numbered_append (only : OnlyPlaceholders kinds text) {kind : Placeholder}
    (member : kind ∈ kinds) (number : Nat) :
    OnlyPlaceholders kinds (kind.numbered number ++ text) := by
  have closed : '{' ∉ (kind.numbered number).tail := Placeholder.not_mem_tail_of_isInner rfl
  intro inside suffix
  rcases List.suffix_cons_iff.mp suffix with here | later
  · exact ⟨kind, member, number, here ▸ List.prefix_append (kind.numbered number) text⟩
  · exact only.append_of_not_mem closed inside later

/-- Numbering the pieces of a text adds placeholders of one more kind. -/
theorem numbered {Record : Type} {pieces : List (Piece Record)}
    (only : OnlyPlaceholders kinds (Piece.sources pieces))
    (spelled : ∀ spelling ∈ Piece.spellings pieces, IsSpelling spelling) {kind : Placeholder}
    (member : kind ∈ kinds) (next : Nat) :
    OnlyPlaceholders kinds (Piece.numbered kind next pieces) := by
  induction pieces generalizing next with
  | nil => exact only
  | cons piece pieces ih =>
      cases piece with
      | plain c =>
          have spelled' : ∀ spelling ∈ Piece.spellings pieces, IsSpelling spelling := spelled
          have later := ih (only.of_suffix (List.suffix_cons c _)) spelled' next
          intro inside suffix
          rcases List.suffix_cons_iff.mp suffix with here | behind
          · cases here
            obtain ⟨other, inner, number, start⟩ := only _ (List.suffix_refl _)
            refine ⟨other, inner, number, ?_⟩
            rw [Placeholder.numbered_prefix_iff] at start ⊢
            rw [Piece.read?_cons_numbered spelled' other kind next '{']
            exact start
          · exact later inside behind
      | reference spelling record =>
          have later := ih (only.of_suffix (List.suffix_append spelling _))
            (fun spelling member => spelled spelling (by simp [member])) (next + 1)
          exact later.numbered_append member next

/-- Trimming leaves the placeholders whole. -/
theorem trim (only : OnlyPlaceholders kinds text) : OnlyPlaceholders kinds text.trim := by
  obtain ⟨blanks, whole, blank⟩ := Text.exists_trimEnd_append text.trimStart
  have start : OnlyPlaceholders kinds text.trimStart :=
    only.of_suffix (List.dropWhile_suffix isBlank)
  rw [whole] at start
  refine start.of_append fun c first => ?_
  exact Placeholder.isInner_of_isBlank (blank c (List.mem_of_mem_head? first))

/-- A separator that no placeholder holds leaves the placeholders whole. -/
theorem of_mem_splitOn {separator : Char} (outer : Placeholder.isInner separator = false)
    {fragment : Text} (only : OnlyPlaceholders kinds text)
    (member : fragment ∈ text.splitOn separator) : OnlyPlaceholders kinds fragment := by
  induction remaining : text.length using Nat.strong_induction_on generalizing text with
  | _ length ih =>
      cases cut : Text.cut? separator text with
      | none =>
          rw [List.splitOn_eq_singleton (Text.cut?_eq_none_iff.mp cut),
            List.mem_singleton] at member
          exact member ▸ only
      | some result =>
          obtain ⟨front, behind⟩ := result
          obtain ⟨rfl, absent⟩ := Text.cut?_eq_some_iff.mp cut
          rw [List.splitOn_append_cons_self_of_not_mem absent, List.mem_cons] at member
          rcases member with rfl | later
          · refine only.of_append fun c first => ?_
            cases first
            exact outer
          · refine ih behind.length ?_ (only.of_suffix ?_) later rfl
            · rw [← remaining, List.length_append, List.length_cons]
              omega
            · exact (List.suffix_cons separator behind).trans (List.suffix_append front _)

end OnlyPlaceholders

end NoteQuery
