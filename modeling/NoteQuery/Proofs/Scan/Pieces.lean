import Mathlib.Data.List.Basic
import NoteQuery.Scan
import NoteQuery.Proofs.Placeholder.Numerals

/-! # Pieces in front of and behind a place

The pieces of a scan spell the text that was read and, once they are numbered, the text that is
written. A place in either text lies between two pieces unless it is inside of a reference
(`Piece.split_sources`), and what the written text holds outside of its placeholders was read as
plain characters (`Piece.split_numbered`).
-/

namespace NoteQuery

/-- The characters that references start with. -/
def isMark (c : Char) : Bool :=
  c == '#' || c == '~' || c == '@'

/-- A text that a reference can be spelled with: it starts with a mark, and a brace in it stands in
front of a closing delimiter at its end. -/
structure IsSpelling (spelling : Text) : Prop where
  marked : ∃ c rest, spelling = c :: rest ∧ isMark c = true
  closed : '{' ∉ spelling ∨ ∃ front last, spelling = front ++ [last] ∧ (last = '}' ∨ last = ')')

/-- No spelling is empty. -/
theorem IsSpelling.ne_nil {spelling : Text} (spelled : IsSpelling spelling) : spelling ≠ [] := by
  obtain ⟨c, rest, rfl, _⟩ := spelled.marked
  exact List.cons_ne_nil c rest

namespace Piece

variable {Record : Type}

/-- The spelling of a reference. -/
def spelling? : Piece Record → Option Text
  | plain _ => none
  | reference spelling _ => some spelling

/-- The spellings of the references among some pieces, in order. -/
def spellings (pieces : List (Piece Record)) : List Text :=
  pieces.filterMap spelling?

@[simp] theorem spellings_plain (c : Char) (rest : List (Piece Record)) :
    spellings (plain c :: rest) = spellings rest := rfl

@[simp] theorem spellings_cons_reference (spelling : Text) (record : Record)
    (rest : List (Piece Record)) :
    spellings (reference spelling record :: rest) = spelling :: spellings rest := rfl

@[simp] theorem spellings_append (first second : List (Piece Record)) :
    spellings (first ++ second) = spellings first ++ spellings second :=
  List.filterMap_append

@[simp] theorem spellings_map_plain (text : Text) :
    spellings (text.map fun c => (plain c : Piece Record)) = [] := by
  induction text with
  | nil => rfl
  | cons c rest ih => exact ih

/-- The pieces can be cut at the reference with a given spelling. -/
theorem split_of_mem_spellings {pieces : List (Piece Record)} {spelling : Text}
    (member : spelling ∈ spellings pieces) :
    ∃ front record back, pieces = front ++ reference spelling record :: back := by
  obtain ⟨piece, inside, spelled⟩ := List.mem_filterMap.mp member
  obtain ⟨front, back, rfl⟩ := List.append_of_mem inside
  cases piece with
  | plain c => cases spelled
  | reference other record =>
      cases spelled
      exact ⟨front, record, back, rfl⟩

/-- Pieces are plain characters up to the first reference. -/
theorem exists_first_reference {pieces : List (Piece Record)} (filled : spellings pieces ≠ []) :
    ∃ (front : Text) (spelling : Text) (record : Record) (back : List (Piece Record)),
      pieces = front.map plain ++ reference spelling record :: back := by
  induction pieces with
  | nil => exact (filled rfl).elim
  | cons piece pieces ih =>
      cases piece with
      | plain c =>
          obtain ⟨front, spelling, record, back, rfl⟩ := ih filled
          exact ⟨c :: front, spelling, record, back, rfl⟩
      | reference spelling record => exact ⟨[], spelling, record, pieces, rfl⟩

/-- A piece behind plain characters comes behind all of them or is one of them. -/
theorem split_map_plain_append {kept : Text} {pieces front back : List (Piece Record)}
    {piece : Piece Record} (split : kept.map .plain ++ pieces = front ++ piece :: back) :
    (∃ rest, front = kept.map .plain ++ rest ∧ pieces = rest ++ piece :: back) ∨
      ∃ start c rest, kept = start ++ c :: rest ∧ front = start.map .plain ∧ piece = .plain c ∧
        back = rest.map .plain ++ pieces := by
  induction kept generalizing front with
  | nil => exact .inl ⟨front, rfl, split⟩
  | cons d kept ih =>
      cases front with
      | nil =>
          rw [List.map_cons, List.cons_append, List.nil_append, List.cons.injEq] at split
          exact .inr ⟨[], d, kept, rfl, rfl, split.1.symm, split.2.symm⟩
      | cons first front =>
          rw [List.map_cons, List.cons_append, List.cons_append, List.cons.injEq] at split
          obtain ⟨rfl, split⟩ := split
          rcases ih split with ⟨rest, rfl, behind⟩ | ⟨start, c, rest, rfl, rfl, plain, behind⟩
          · exact .inl ⟨rest, rfl, behind⟩
          · exact .inr ⟨d :: start, c, rest, rfl, rfl, plain, behind⟩

@[simp] theorem sources_nil : sources ([] : List (Piece Record)) = [] := rfl

@[simp] theorem sources_cons_plain (c : Char) (rest : List (Piece Record)) :
    sources (plain c :: rest) = c :: sources rest := rfl

@[simp] theorem sources_cons_reference (spelling : Text) (record : Record)
    (rest : List (Piece Record)) :
    sources (reference spelling record :: rest) = spelling ++ sources rest := rfl

@[simp] theorem records_cons_plain (c : Char) (rest : List (Piece Record)) :
    records (plain c :: rest) = records rest := rfl

@[simp] theorem records_cons_reference (spelling : Text) (record : Record)
    (rest : List (Piece Record)) :
    records (reference spelling record :: rest) = record :: records rest := rfl

theorem records_append (first second : List (Piece Record)) :
    records (first ++ second) = records first ++ records second :=
  List.filterMap_append

@[simp] theorem records_map_plain (text : Text) :
    records (text.map fun c => (plain c : Piece Record)) = [] := by
  induction text with
  | nil => rfl
  | cons c rest ih => exact ih

/-- The pieces can be cut at the reference with a given record. -/
theorem mem_records_iff {pieces : List (Piece Record)} {record : Record} :
    record ∈ records pieces ↔
      ∃ front spelling back, pieces = front ++ reference spelling record :: back := by
  constructor
  · intro member
    obtain ⟨piece, inside, recorded⟩ := List.mem_filterMap.mp member
    obtain ⟨front, back, rfl⟩ := List.append_of_mem inside
    cases piece with
    | plain c => cases recorded
    | reference spelling other =>
        cases recorded
        exact ⟨front, spelling, back, rfl⟩
  · rintro ⟨front, spelling, back, rfl⟩
    rw [records_append, records_cons_reference]
    exact List.mem_append_right _ List.mem_cons_self

/-- Numbering goes on behind some pieces with the number of references in them. -/
theorem numbered_append (kind : Placeholder) (next : Nat) (first second : List (Piece Record)) :
    numbered kind next (first ++ second) =
      numbered kind next first ++ numbered kind (next + (records first).length) second := by
  induction first generalizing next with
  | nil => rfl
  | cons piece first ih =>
      cases piece with
      | plain c => simp only [List.cons_append, numbered, ih, records_cons_plain]
      | reference spelling record =>
          have shifted : next + 1 + (records first).length =
              next + (record :: records first).length := by
            rw [List.length_cons]
            omega
          simp only [List.cons_append, numbered, ih, records_cons_reference, shifted,
            List.append_assoc]

/-- Plain characters are written as they were read. -/
theorem numbered_map_plain_append (kind : Placeholder) (next : Nat) (text : Text)
    (rest : List (Piece Record)) :
    numbered kind next (text.map plain ++ rest) = text ++ numbered kind next rest := by
  induction text with
  | nil => rfl
  | cons c text ih => simp only [List.map_cons, List.cons_append, numbered, ih]

/-- Plain characters need no placeholders. -/
theorem numbered_map_plain (kind : Placeholder) (next : Nat) (text : Text) :
    numbered kind next (text.map fun c => (plain c : Piece Record)) = text := by
  have written := numbered_map_plain_append kind next text ([] : List (Piece Record))
  rwa [List.append_nil, numbered, List.append_nil] at written

theorem sources_map_plain_append (text : Text) (rest : List (Piece Record)) :
    sources (text.map plain ++ rest) = text ++ sources rest := by
  rw [sources_append, sources_plain]

/-- What is written without an opening brace was read as plain characters. -/
theorem eq_plain_of_numbered {kind : Placeholder} {next : Nat} {pieces : List (Piece Record)}
    {front rest : Text} (closed : '{' ∉ front) (same : numbered kind next pieces = front ++ rest) :
    ∃ back, pieces = front.map plain ++ back ∧ numbered kind next back = rest := by
  induction front generalizing pieces with
  | nil => exact ⟨pieces, rfl, same⟩
  | cons c front ih =>
      rw [List.mem_cons, not_or] at closed
      cases pieces with
      | nil => simp [numbered] at same
      | cons piece pieces =>
          cases piece with
          | plain d =>
              simp only [numbered, List.cons_append, List.cons.injEq] at same
              obtain ⟨rfl, same⟩ := same
              obtain ⟨back, rfl, written⟩ := ih closed.2 same
              exact ⟨back, rfl, written⟩
          | reference spelling record =>
              simp only [numbered, Placeholder.numbered, List.cons_append, List.cons.injEq] at same
              exact (closed.1 same.1).elim

/-- A text in which no reference starts was read as plain characters. -/
theorem eq_plain_of_unstarted {pieces : List (Piece Record)} {front rest : Text}
    (unstarted : ∀ earlier spelling record later,
      pieces = earlier ++ reference spelling record :: later →
        front.length ≤ (sources earlier).length)
    (same : sources pieces = front ++ rest) :
    ∃ back, pieces = front.map plain ++ back ∧ sources back = rest := by
  induction front generalizing pieces with
  | nil => exact ⟨pieces, rfl, same⟩
  | cons c front ih =>
      cases pieces with
      | nil => simp at same
      | cons piece pieces =>
          cases piece with
          | plain d =>
              simp only [sources_cons_plain, List.cons_append, List.cons.injEq] at same
              obtain ⟨rfl, same⟩ := same
              have later : ∀ earlier spelling record later,
                  pieces = earlier ++ reference spelling record :: later →
                    front.length ≤ (sources earlier).length := by
                rintro earlier spelling record later rfl
                have starts := unstarted (plain d :: earlier) spelling record later rfl
                simpa using starts
              obtain ⟨back, rfl, read⟩ := ih later same
              exact ⟨back, rfl, read⟩
          | reference spelling record =>
              have starts := unstarted [] spelling record pieces rfl
              simp at starts

/-- What was read without a mark was read as plain characters. -/
theorem eq_plain_of_sources {pieces : List (Piece Record)} {mark : Char → Bool}
    (marked : ∀ spelling ∈ spellings pieces, ∃ c rest, spelling = c :: rest ∧ mark c = true)
    {front rest : Text} (unmarked : ∀ c ∈ front, mark c = false)
    (same : sources pieces = front ++ rest) :
    ∃ back, pieces = front.map plain ++ back ∧ sources back = rest := by
  refine eq_plain_of_unstarted ?_ same
  rintro earlier spelling record later rfl
  obtain ⟨c, tail, rfl, isMarked⟩ := marked spelling (by simp)
  by_contra shorter
  -- A reference that starts inside of the text would put its mark there.
  rw [sources_append, sources_cons_reference] at same
  rcases List.append_eq_append_iff.mp same with ⟨cut, rfl, ends⟩ | ⟨cut, longer, _⟩
  · cases cut with
    | nil => simp at shorter
    | cons d cut =>
        simp only [List.cons_append, List.cons.injEq] at ends
        rw [ends.1, unmarked d (by simp)] at isMarked
        cases isMarked
  · rw [longer, List.length_append] at shorter
    omega

/-- Pieces without references are plain characters. -/
theorem eq_map_plain_of_spellings {pieces : List (Piece Record)} (none : spellings pieces = []) :
    pieces = (sources pieces).map plain := by
  induction pieces with
  | nil => rfl
  | cons piece pieces ih =>
      cases piece with
      | plain c => rw [sources_cons_plain, List.map_cons, ← ih none]
      | reference spelling record => cases none

/-- Pieces without records are plain characters. -/
theorem eq_map_plain_of_records {pieces : List (Piece Record)} (none : records pieces = []) :
    pieces = (sources pieces).map plain := by
  refine eq_map_plain_of_spellings (List.eq_nil_iff_forall_not_mem.mpr fun spelling member => ?_)
  obtain ⟨front, record, back, rfl⟩ := split_of_mem_spellings member
  simp [records, record?] at none

/-- A character that no placeholder holds is written only where it was read. -/
theorem mem_sources_of_mem_numbered {kind : Placeholder} {next : Nat}
    {pieces : List (Piece Record)} {c : Char} (outer : Placeholder.isInner c = false)
    (other : c ≠ '{') (member : c ∈ numbered kind next pieces) : c ∈ sources pieces := by
  induction pieces generalizing next with
  | nil => cases member
  | cons piece pieces ih =>
      cases piece with
      | plain d =>
          rcases List.mem_cons.mp member with rfl | later
          · exact List.mem_cons_self
          · exact List.mem_cons_of_mem _ (ih later)
      | reference spelling record =>
          rcases List.mem_append.mp member with inside | later
          · exact (Placeholder.not_mem_numbered outer other inside).elim
          · exact List.mem_append_right _ (ih later)

/-- A text that is written outside of the placeholders was read as plain characters, between the
pieces that are written in front of it and behind it. -/
theorem split_numbered {kind : Placeholder} {next : Nat} {pieces : List (Piece Record)}
    {before middle behind : Text} {c : Char} (outer : Placeholder.isInner c = false)
    (closed : '{' ∉ c :: middle)
    (same : numbered kind next pieces = before ++ (c :: middle ++ behind)) :
    ∃ front back, pieces = front ++ ((c :: middle).map plain ++ back) ∧
      numbered kind next front = before ∧
      numbered kind (next + (records front).length) back = behind := by
  induction pieces generalizing before next with
  | nil => simp [numbered] at same
  | cons piece pieces ih =>
      cases before with
      | nil =>
          obtain ⟨back, whole, written⟩ := eq_plain_of_numbered closed same
          exact ⟨[], back, whole, rfl, written⟩
      | cons a before =>
          cases piece with
          | plain d =>
              simp only [numbered, List.cons_append, List.cons.injEq] at same
              obtain ⟨rfl, same⟩ := same
              obtain ⟨front, back, rfl, rfl, written⟩ := ih same
              exact ⟨plain d :: front, back, rfl, rfl, written⟩
          | reference spelling record =>
              rw [numbered] at same
              have shifted (front : List (Piece Record)) :
                  next + (records (reference spelling record :: front)).length =
                    next + 1 + (records front).length := by
                rw [records_cons_reference, List.length_cons]
                omega
              rcases List.append_eq_append_iff.mp same with
                ⟨later, start, ends⟩ | ⟨cut, start, ends⟩
              · obtain ⟨front, back, rfl, rfl, written⟩ := ih ends
                refine ⟨reference spelling record :: front, back, rfl, start.symm, ?_⟩
                rw [shifted, written]
              · -- The placeholder would hold the text that stands outside of it.
                cases cut with
                | nil =>
                    have start' : numbered kind (next + 1) pieces =
                        [] ++ (c :: middle ++ behind) := ends.symm
                    obtain ⟨front, back, rfl, empty, written⟩ := ih start'
                    refine ⟨reference spelling record :: front, back, rfl, ?_, ?_⟩
                    · rw [numbered, empty, List.append_nil, start, List.append_nil]
                    · rw [shifted, written]
                | cons d cut =>
                    simp only [List.cons_append, List.cons.injEq] at ends
                    obtain ⟨rfl, _⟩ := ends
                    have inner : c ∈ (kind.numbered next).tail := by
                      rw [start]
                      simp
                    exact (Placeholder.not_mem_tail_of_isInner outer inner).elim

/-- A literal in the numbered text that no placeholder can hold is a run of plain pieces. -/
theorem split_numbered_literal {kind : Placeholder} {next : Nat} {pieces : List (Piece Record)}
    {before literal behind : Text} (filled : literal ≠ [])
    (outer : literal.head?.any Placeholder.isInner = false) (closed : '{' ∉ literal)
    (same : numbered kind next pieces = before ++ (literal ++ behind)) :
    ∃ front back, pieces = front ++ (literal.map plain ++ back) ∧
      numbered kind next front = before ∧
      numbered kind (next + (records front).length) back = behind := by
  obtain ⟨c, middle, rfl⟩ := List.exists_cons_of_ne_nil filled
  exact split_numbered outer closed same

/-- A place in the text that was read lies between two pieces or inside of a reference. -/
theorem split_sources {pieces : List (Piece Record)} {before behind : Text}
    (same : sources pieces = before ++ behind) :
    (∃ front back, pieces = front ++ back ∧ sources front = before ∧ sources back = behind) ∨
      ∃ front start rest record back, pieces = front ++ reference (start ++ rest) record :: back ∧
        start ≠ [] ∧ rest ≠ [] ∧ before = sources front ++ start ∧
        behind = rest ++ sources back := by
  induction pieces generalizing before with
  | nil =>
      simp only [sources_nil, List.nil_eq, List.append_eq_nil_iff] at same
      obtain ⟨rfl, rfl⟩ := same
      exact .inl ⟨[], [], rfl, rfl, rfl⟩
  | cons piece pieces ih =>
      cases before with
      | nil => exact .inl ⟨[], piece :: pieces, rfl, rfl, same⟩
      | cons a before =>
          cases piece with
          | plain d =>
              simp only [sources_cons_plain, List.cons_append, List.cons.injEq] at same
              obtain ⟨rfl, same⟩ := same
              rcases ih same with ⟨front, back, rfl, rfl, rfl⟩ |
                ⟨front, start, rest, record, back, rfl, started, ended, rfl, rfl⟩
              · exact .inl ⟨plain d :: front, back, rfl, rfl, rfl⟩
              · exact .inr ⟨plain d :: front, start, rest, record, back, rfl, started, ended, rfl,
                  rfl⟩
          | reference spelling record =>
              rw [sources_cons_reference] at same
              rcases List.append_eq_append_iff.mp same with
                ⟨later, whole, ends⟩ | ⟨cut, whole, ends⟩
              · rcases ih ends with ⟨front, back, rfl, rfl, rfl⟩ |
                  ⟨front, start, rest, other, back, rfl, started, ended, rfl, rfl⟩
                · exact .inl ⟨reference spelling record :: front, back, rfl, whole.symm, rfl⟩
                · refine .inr ⟨reference spelling record :: front, start, rest, other, back, rfl,
                    started, ended, ?_, rfl⟩
                  rw [whole, sources_cons_reference, List.append_assoc]
              · cases cut with
                | nil =>
                    refine .inl ⟨[reference spelling record], pieces, rfl, ?_, ?_⟩
                    · rw [sources_reference, whole, List.append_nil]
                    · rw [ends, List.nil_append]
                | cons d cut =>
                    refine .inr ⟨[], a :: before, d :: cut, record, pieces, ?_, by simp, by simp,
                      rfl, ends⟩
                    rw [whole]
                    rfl

end Piece

end NoteQuery
