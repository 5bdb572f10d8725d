import NoteQuery.Proofs.Reference.Braces

/-! # Replacing the placeholders with one number

Replacing a placeholder by a text that opens no placeholder takes its numeral away and leaves all
the others (`Placeholder.numerals_replace`). Where the placeholder stands only once, it is replaced
there and nothing else changes (`Placeholder.replace_of_count_eq_one`).
-/

namespace NoteQuery.Placeholder

open Delimiters (braces)

variable {kind : Placeholder} {number : Nat} {text front behind replacement : Text} {c : Char}

/-- Every text is made up from the places where a placeholder stands and the characters at which
it does not start. -/
@[elab_as_elim]
theorem numbered_induction (kind : Placeholder) (number : Nat) {motive : Text → Prop}
    (nil : motive [])
    (numbered : ∀ rest, motive rest → motive (kind.numbered number ++ rest))
    (cons : ∀ c rest, kind.read? (c :: rest) ≠ some (Text.ofNat number) → motive rest →
      motive (c :: rest)) (text : Text) : motive text := by
  induction remaining : text.length using Nat.strong_induction_on generalizing text with
  | _ length ih =>
      cases text with
      | nil => exact nil
      | cons c rest =>
          by_cases read : kind.read? (c :: rest) = some (Text.ofNat number)
          · obtain ⟨behind, whole⟩ := numbered_prefix_iff.mpr read
            rw [← whole] at remaining ⊢
            refine numbered behind (ih behind.length ?_ behind rfl)
            rw [← remaining, List.length_append, Placeholder.numbered, List.length_cons]
            omega
          · refine cons c rest read (ih rest.length ?_ rest rfl)
            rw [← remaining, List.length_cons]
            exact Nat.lt_succ_self _

theorem replace_numbered_append (kind : Placeholder) (number : Nat) (replacement rest : Text) :
    Text.replace (kind.numbered number) replacement (kind.numbered number ++ rest) =
      replacement ++ Text.replace (kind.numbered number) replacement rest := by
  have opened : (kind.numbered number).isPrefixOf? (kind.numbered number ++ rest) = some rest :=
    List.isPrefixOf?_eq_some_iff_append_eq.mpr rfl
  rw [numbered, List.cons_append] at opened ⊢
  rw [Text.replace, opened]
  refine dif_pos ?_
  rw [List.length_append]
  exact Nat.le_add_left _ _

theorem replace_cons {rest : Text} (other : kind.read? (c :: rest) ≠ some (Text.ofNat number)) :
    Text.replace (kind.numbered number) replacement (c :: rest) =
      c :: Text.replace (kind.numbered number) replacement rest := by
  have absent : (kind.numbered number).isPrefixOf? (c :: rest) = none := by
    rw [Option.eq_none_iff_forall_ne_some]
    intro behind opened
    exact other (numbered_prefix_iff.mp ⟨behind, List.append_eq_of_isPrefixOf?_eq_some opened⟩)
  rw [Text.replace, absent]

/-- What stands behind a replacement stood in the text or in the replacement. -/
theorem mem_of_mem_replace
    (member : c ∈ Text.replace (kind.numbered number) replacement text) :
    c ∈ text ∨ c ∈ replacement := by
  induction text using numbered_induction kind number with
  | nil =>
      rw [Text.replace] at member
      cases member
  | numbered rest ih =>
      rw [replace_numbered_append, List.mem_append] at member
      rcases member with inside | later
      · exact .inr inside
      · exact (ih later).imp_left (List.mem_append_right _)
  | cons d rest other ih =>
      rw [replace_cons other, List.mem_cons] at member
      rcases member with rfl | later
      · exact .inl List.mem_cons_self
      · exact (ih later).imp_left (List.mem_cons_of_mem _)

/-- Where the placeholder does not stand, nothing is replaced. -/
theorem replace_of_not_mem (absent : Text.ofNat number ∉ kind.numerals text) :
    Text.replace (kind.numbered number) replacement text = text := by
  induction text using numbered_induction kind number with
  | nil => rw [Text.replace]
  | numbered rest ih =>
      rw [numerals_numbered_append, if_pos rfl] at absent
      exact (absent List.mem_cons_self).elim
  | cons c rest other ih =>
      rw [numerals, List.mem_append, not_or] at absent
      rw [replace_cons other, ih absent.2]

/-- Where the placeholder stands once, only that place changes. -/
theorem replace_of_count_eq_one
    (once : (kind.numerals (front ++ (kind.numbered number ++ behind))).count (Text.ofNat number) =
      1) :
    Text.replace (kind.numbered number) replacement (front ++ (kind.numbered number ++ behind)) =
      front ++ (replacement ++ behind) := by
  induction front with
  | nil =>
      rw [List.nil_append, numerals_numbered_append, if_pos rfl, List.count_append,
        List.count_singleton_self] at once
      have absent : Text.ofNat number ∉ kind.numerals behind :=
        List.count_eq_zero.mp (Nat.add_left_cancel once)
      rw [List.nil_append, replace_numbered_append, replace_of_not_mem absent, List.nil_append]
  | cons c front ih =>
      have inside : 0 < (kind.numerals (front ++ (kind.numbered number ++ behind))).count
          (Text.ofNat number) :=
        List.count_pos_iff.mpr (numbered_infix_iff.mp ⟨front, behind, by simp⟩)
      rw [List.cons_append, numerals, List.count_append] at once
      have other : kind.read? (c :: (front ++ (kind.numbered number ++ behind))) ≠
          some (Text.ofNat number) := by
        intro read
        rw [read, Option.toList_some, List.count_singleton_self] at once
        omega
      rw [List.cons_append, replace_cons other, ih (by omega), List.cons_append]

/-- The replacements do not change how the text starts up to a brace. -/
theorem replace_eq_append_iff {first : Char} {more : Text} (closed : '{' ∉ front)
    (absent : first ∉ front) :
    (∃ rest, Text.replace (kind.numbered number) (first :: more) text = front ++ rest) ↔
      ∃ rest, text = front ++ rest := by
  induction front generalizing text with
  | nil => exact ⟨fun _ => ⟨text, rfl⟩, fun _ => ⟨_, rfl⟩⟩
  | cons d front ih =>
      rw [List.mem_cons, not_or] at closed absent
      cases text using numbered_induction kind number with
      | nil => simp [Text.replace]
      | numbered rest =>
          rw [replace_numbered_append, numbered]
          refine iff_of_false ?_ ?_
          · rintro ⟨_, same⟩
            exact absent.1 (List.cons.inj same).1
          · rintro ⟨_, same⟩
            exact closed.1 (List.cons.inj same).1
      | cons c rest other =>
          rw [replace_cons other]
          simp only [List.cons_append, List.cons.injEq, exists_and_left, ih closed.2 absent.2]

/-- Elsewhere the same placeholders are read as before. -/
theorem read?_cons_replace {first : Char} {more rest : Text} (outer : isInner first = false) :
    kind.read? (c :: Text.replace (kind.numbered number) (first :: more) rest) =
      kind.read? (c :: rest) := by
  refine Option.ext fun numeral => ?_
  rw [read?_eq_some_iff, read?_eq_some_iff]
  refine and_congr_left fun ⟨_, digits⟩ => ?_
  have inner : ∀ d ∈ kind.word ++ numeral ++ ['}'], isInner d = true := by
    intro d member
    simp only [List.mem_append, List.mem_singleton] at member
    rcases member with (named | digit) | rfl
    · exact isInner_of_mem_word named
    · simp [isInner, digits d digit]
    · rfl
  have closed : '{' ∉ kind.word ++ numeral ++ ['}'] := fun member => by cases inner _ member
  have absent : first ∉ kind.word ++ numeral ++ ['}'] := by
    intro member
    rw [inner _ member] at outer
    cases outer
  have same : (∃ behind, Text.replace (kind.numbered number) (first :: more) rest =
      kind.word ++ numeral ++ ['}'] ++ behind) ↔
        ∃ behind, rest = kind.word ++ numeral ++ ['}'] ++ behind :=
    replace_eq_append_iff closed absent
  simp only [List.append_assoc, List.singleton_append] at same
  simp only [List.cons.injEq, List.append_assoc, exists_and_left, same]

/-- **Replacing a placeholder** takes its numeral away and leaves the others. -/
theorem numerals_replace {first : Char} {more : Text} (outer : isInner first = false)
    (closed : '{' ∉ first :: more) :
    kind.numerals (Text.replace (kind.numbered number) (first :: more) text) =
      (kind.numerals text).filter (· ≠ Text.ofNat number) := by
  induction text using numbered_induction kind number with
  | nil =>
      rw [Text.replace]
      rfl
  | numbered rest ih =>
      rw [replace_numbered_append, numerals_append_of_not_mem closed, ih, numerals_numbered_append,
        if_pos rfl]
      simp
  | cons c rest other ih =>
      rw [replace_cons other, numerals, numerals, read?_cons_replace outer, ih, List.filter_append]
      congr 1
      cases read : kind.read? (c :: rest) with
      | none => rfl
      | some numeral =>
          rw [read, ne_eq, Option.some.injEq] at other
          simp [other]

/-- A text stays balanced when placeholders in it are replaced by balanced texts. -/
theorem closes_replace (balanced : braces.Balanced replacement) {depth : Nat}
    (closes : braces.Closes depth text) :
    braces.Closes depth (Text.replace (kind.numbered number) replacement text) := by
  induction text using numbered_induction kind number generalizing depth with
  | nil => rwa [Text.replace]
  | numbered rest ih =>
      rw [replace_numbered_append]
      exact balanced.closes_append_iff.mpr
        (ih ((kind.balanced_numbered number).closes_append_iff.mp closes))
  | cons c rest other ih =>
      rw [replace_cons other]
      exact closes.of_rest fun _ => ih

end NoteQuery.Placeholder
