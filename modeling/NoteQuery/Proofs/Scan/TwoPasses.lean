import Mathlib.Data.List.Range
import NoteQuery.Reference.Name
import NoteQuery.Proofs.Scan.Alike

/-! # Pieces cut by two passes

The references of one sort are replaced in two passes, one for each spelling of a name: the first
one reads the clause, the second one what the first has written. Both passes together cut the clause
into pieces (`Piece.exists_replaced`): what the second pass replaces is plain text for the first
one, and the placeholders of the first pass are plain text for the second one.
-/

namespace NoteQuery

/-- What became of a reference: the spelling of its name, its record, and the number of its
placeholder. -/
structure Replacement (Record : Type) where
  spelling : Spelling
  record : Record
  number : Nat

namespace Piece

variable {Record : Type}

/-- The text of some pieces with the placeholder of each reference in its place. -/
def filled (kind : Placeholder) : List (Piece (Replacement Record)) → Text
  | [] => []
  | plain c :: rest => c :: filled kind rest
  | reference _ replacement :: rest => kind.numbered replacement.number ++ filled kind rest

/-- A piece as the first pass cuts it: only plain names are replaced. -/
def inFirst : Piece (Replacement Record) → List (Piece Record)
  | plain c => [plain c]
  | reference spelled ⟨.plain, record, _⟩ => [reference spelled record]
  | reference spelled ⟨.bracketed, _, _⟩ => spelled.map plain

/-- A piece as the second pass cuts it: the placeholders of the first pass are in the text. -/
def inSecond (kind : Placeholder) : Piece (Replacement Record) → List (Piece Record)
  | plain c => [plain c]
  | reference _ ⟨.plain, _, number⟩ => (kind.numbered number).map plain
  | reference spelled ⟨.bracketed, record, _⟩ => [reference spelled record]

/-- The references in one spelling among some pieces. -/
def replacedIn (spelling : Spelling) (pieces : List (Piece (Replacement Record))) :
    List (Replacement Record) :=
  (records pieces).filter (·.spelling = spelling)

/-- The numbers of the references in one spelling, from the left. -/
def numbersIn (spelling : Spelling) (pieces : List (Piece (Replacement Record))) : List Nat :=
  (replacedIn spelling pieces).map (·.number)

/-- The references are numbered from the left, those with plain names from `next` on and those in
brackets from `later` on. -/
structure CountedFrom (next later : Nat) (pieces : List (Piece (Replacement Record))) : Prop where
  early : numbersIn .plain pieces = List.range' next (numbersIn .plain pieces).length
  late : numbersIn .bracketed pieces = List.range' later (numbersIn .bracketed pieces).length

variable {kind : Placeholder} {next later number : Nat} {spelled : Text} {record : Record}
  {pieces front back : List (Piece (Replacement Record))} {first second : List (Piece Record)}

theorem numbersIn_append (spelling : Spelling) (front back : List (Piece (Replacement Record))) :
    numbersIn spelling (front ++ back) = numbersIn spelling front ++ numbersIn spelling back := by
  simp [numbersIn, replacedIn, records]

theorem countedFrom_nil : CountedFrom next later ([] : List (Piece (Replacement Record))) :=
  ⟨rfl, rfl⟩

theorem countedFrom_cons_plain (c : Char) :
    CountedFrom next later (.plain c :: pieces) ↔ CountedFrom next later pieces :=
  ⟨fun counted => ⟨counted.early, counted.late⟩,
    fun counted => ⟨counted.early, counted.late⟩⟩

/-- A reference of the first pass has the next number of the first count. -/
theorem countedFrom_cons_first :
    CountedFrom next later (reference spelled ⟨.plain, record, number⟩ :: pieces) ↔
      number = next ∧ CountedFrom (next + 1) later pieces := by
  have numbers : numbersIn .plain (reference spelled ⟨.plain, record, number⟩ :: pieces) =
      number :: numbersIn .plain pieces := rfl
  constructor
  · rintro ⟨early, late⟩
    rw [numbers, List.length_cons, List.range'_succ, List.cons.injEq] at early
    exact ⟨early.1, early.2, late⟩
  · rintro ⟨rfl, early, late⟩
    refine ⟨?_, late⟩
    rw [numbers, List.length_cons, List.range'_succ, ← early]

/-- A reference of the second pass has the next number of the second count. -/
theorem countedFrom_cons_second :
    CountedFrom next later (reference spelled ⟨.bracketed, record, number⟩ :: pieces) ↔
      number = later ∧ CountedFrom next (later + 1) pieces := by
  have numbers : numbersIn .bracketed (reference spelled ⟨.bracketed, record, number⟩ :: pieces) =
      number :: numbersIn .bracketed pieces := rfl
  constructor
  · rintro ⟨early, late⟩
    rw [numbers, List.length_cons, List.range'_succ, List.cons.injEq] at late
    exact ⟨late.1, early, late.2⟩
  · rintro ⟨rfl, early, late⟩
    refine ⟨early, ?_⟩
    rw [numbers, List.length_cons, List.range'_succ, ← late]

/-- Counting goes on behind some pieces. -/
theorem CountedFrom.of_append (counted : CountedFrom next later (front ++ back)) :
    CountedFrom next later front ∧
      CountedFrom (next + (numbersIn .plain front).length)
        (later + (numbersIn .bracketed front).length) back := by
  have parts (spelling : Spelling) (start : Nat)
      (all : numbersIn spelling (front ++ back) =
        List.range' start (numbersIn spelling (front ++ back)).length) :
      numbersIn spelling front = List.range' start (numbersIn spelling front).length ∧
        numbersIn spelling back = List.range' (start + (numbersIn spelling front).length)
          (numbersIn spelling back).length := by
    rw [numbersIn_append, List.length_append, ← List.range'_append_1] at all
    exact List.append_inj all (by simp)
  exact ⟨⟨(parts .plain next counted.early).1, (parts .bracketed later counted.late).1⟩,
    (parts .plain next counted.early).2, (parts .bracketed later counted.late).2⟩

/-- The first pass reads the clause that the pieces were cut from. -/
theorem sources_inFirst (pieces : List (Piece (Replacement Record))) :
    sources (pieces.flatMap inFirst) = sources pieces := by
  induction pieces with
  | nil => rfl
  | cons piece pieces ih =>
      rw [List.flatMap_cons, sources_append, ih]
      match piece with
      | plain c => rfl
      | reference spelled ⟨.plain, _, _⟩ => rw [inFirst, sources_reference]; rfl
      | reference spelled ⟨.bracketed, _, _⟩ => rw [inFirst, sources_plain]; rfl

/-- The second pass reads what the first one writes. -/
theorem CountedFrom.sources_inSecond (counted : CountedFrom next later pieces)
    (kind : Placeholder) :
    sources (pieces.flatMap (inSecond kind)) = numbered kind next (pieces.flatMap inFirst) := by
  induction pieces generalizing next later with
  | nil => rfl
  | cons piece pieces ih =>
      rw [List.flatMap_cons, List.flatMap_cons, sources_append]
      match piece with
      | plain c => rw [ih ((countedFrom_cons_plain c).mp counted)]; rfl
      | reference spelled ⟨.plain, _, _⟩ =>
          obtain ⟨rfl, counted⟩ := countedFrom_cons_first.mp counted
          rw [ih counted, inSecond, sources_plain]
          rfl
      | reference spelled ⟨.bracketed, _, _⟩ =>
          obtain ⟨rfl, counted⟩ := countedFrom_cons_second.mp counted
          rw [ih counted, inSecond, sources_reference, inFirst, numbered_map_plain_append]

/-- The second pass writes the placeholders of both. -/
theorem CountedFrom.numbered_inSecond (counted : CountedFrom next later pieces)
    (kind : Placeholder) :
    numbered kind later (pieces.flatMap (inSecond kind)) = filled kind pieces := by
  induction pieces generalizing next later with
  | nil => rfl
  | cons piece pieces ih =>
      rw [List.flatMap_cons]
      match piece with
      | plain c => rw [filled, ← ih ((countedFrom_cons_plain c).mp counted)]; rfl
      | reference spelled ⟨.plain, _, _⟩ =>
          obtain ⟨rfl, counted⟩ := countedFrom_cons_first.mp counted
          rw [filled, ← ih counted, inSecond, numbered_map_plain_append]
      | reference spelled ⟨.bracketed, _, _⟩ =>
          obtain ⟨rfl, counted⟩ := countedFrom_cons_second.mp counted
          rw [filled, ← ih counted]
          rfl

/-- The first pass records what it replaces. -/
theorem records_inFirst (pieces : List (Piece (Replacement Record))) :
    records (pieces.flatMap inFirst) = (replacedIn .plain pieces).map (·.record) := by
  induction pieces with
  | nil => rfl
  | cons piece pieces ih =>
      rw [List.flatMap_cons, records_append, ih]
      match piece with
      | plain c => rfl
      | reference spelled ⟨.plain, _, _⟩ => rfl
      | reference spelled ⟨.bracketed, _, _⟩ => rw [inFirst, records_map_plain]; rfl

theorem length_records_inFirst (pieces : List (Piece (Replacement Record))) :
    (records (pieces.flatMap inFirst)).length = (numbersIn .plain pieces).length := by
  rw [records_inFirst, numbersIn, List.length_map, List.length_map]

/-- The second pass records what it replaces. -/
theorem records_inSecond (kind : Placeholder) (pieces : List (Piece (Replacement Record))) :
    records (pieces.flatMap (inSecond kind)) = (replacedIn .bracketed pieces).map (·.record) := by
  induction pieces with
  | nil => rfl
  | cons piece pieces ih =>
      rw [List.flatMap_cons, records_append, ih]
      match piece with
      | plain c => rfl
      | reference spelled ⟨.plain, _, _⟩ => rw [inSecond, records_map_plain]; rfl
      | reference spelled ⟨.bracketed, _, _⟩ => rfl

/-- Each reference is replaced in one of the two passes. -/
theorem replacedIn_perm (pieces : List (Piece (Replacement Record))) :
    (replacedIn .plain pieces ++ replacedIn .bracketed pieces).Perm (records pieces) := by
  have others : replacedIn .bracketed pieces =
      (records pieces).filter fun replacement => !decide (replacement.spelling = .plain) := by
    refine List.filter_congr fun replacement _ => ?_
    cases replacement.spelling <;> rfl
  rw [others]
  exact List.filter_append_perm _ _

/-- When counting goes on with the names in brackets, each number is given to one reference. -/
theorem CountedFrom.numbers_perm
    (counted : CountedFrom next (next + (numbersIn .plain pieces).length) pieces) :
    ((records pieces).map (·.number)).Perm (List.range' next (records pieces).length) := by
  have length : (records pieces).length =
      (numbersIn .plain pieces).length + (numbersIn .bracketed pieces).length := by
    rw [← (replacedIn_perm pieces).length_eq, List.length_append, numbersIn, numbersIn,
      List.length_map, List.length_map]
  have numbers := (replacedIn_perm pieces).map (·.number)
  rw [List.map_append] at numbers
  change (numbersIn .plain pieces ++ numbersIn .bracketed pieces).Perm _ at numbers
  rw [counted.early, counted.late, List.range'_append_1, ← length] at numbers
  exact numbers.symm

/-- The record of a reference is found with its number behind the records known before. -/
theorem CountedFrom.getElem?_number {known : List Record}
    (counted : CountedFrom known.length (known.length + (numbersIn .plain pieces).length) pieces)
    {replacement : Replacement Record} (member : replacement ∈ records pieces) :
    (known ++ ((replacedIn .plain pieces).map (·.record) ++
      (replacedIn .bracketed pieces).map (·.record)))[replacement.number]? =
        some replacement.record := by
  have placed {spelling : Spelling} {start : Nat}
      (numbers : numbersIn spelling pieces =
        List.range' start (numbersIn spelling pieces).length)
      (inside : replacement ∈ replacedIn spelling pieces) :
      ∃ place, replacement.number = start + place ∧
        ((replacedIn spelling pieces).map (·.record))[place]? = some replacement.record := by
    obtain ⟨place, bound, here⟩ := List.mem_iff_getElem.mp inside
    have number := congrArg (·[place]?) numbers
    simp [numbersIn, bound, here] at number
    exact ⟨place, number, by simp [bound, here]⟩
  have length : ((replacedIn .plain pieces).map (·.record)).length =
      (numbersIn .plain pieces).length := by rw [numbersIn, List.length_map, List.length_map]
  rcases List.mem_append.mp ((replacedIn_perm pieces).mem_iff.mpr member) with early | late
  · obtain ⟨place, number, here⟩ := placed counted.early early
    rw [number, List.getElem?_append_right (Nat.le_add_right _ _), Nat.add_sub_cancel_left,
      List.getElem?_append_left (List.getElem?_eq_some_iff.mp here).1, here]
  · obtain ⟨place, number, here⟩ := placed counted.late late
    rw [number, Nat.add_assoc, List.getElem?_append_right (Nat.le_add_right _ _),
      Nat.add_sub_cancel_left, ← length, List.getElem?_append_right (Nat.le_add_right _ _),
      Nat.add_sub_cancel_left, here]

/-- **Two passes cut one list of pieces**, when the references of the second pass start with marks
and hold no brace: no placeholder of the first pass is a part of them. -/
theorem exists_replaced {next : Nat} {first second : List (Piece Record)} (later : Nat)
    (spelled : ∀ text ∈ spellings second,
      '{' ∉ text ∧ ∃ c rest, text = c :: rest ∧ isMark c = true)
    (same : sources second = numbered kind next first) :
    ∃ pieces : List (Piece (Replacement Record)), pieces.flatMap inFirst = first ∧
      pieces.flatMap (inSecond kind) = second ∧ CountedFrom next later pieces := by
  -- A placeholder of the first pass is many pieces of the second one, whose length falls each time.
  match first, second with
  | [], [] => exact ⟨[], rfl, rfl, countedFrom_nil⟩
  | [], plain d :: second => cases same
  | [], reference text record :: second =>
      obtain ⟨_, c, rest, rfl, _⟩ := spelled text (by simp)
      cases same
  | reference text record :: first, second =>
      obtain ⟨back, split, behind⟩ := eq_plain_of_sources
        (fun text member => (spelled text member).2)
        (fun _ => Placeholder.isMark_of_mem_numbered) same
      have shorter : back.length < second.length := by
        simp only [split, List.length_append, List.length_map, Placeholder.numbered,
          List.length_cons]
        omega
      obtain ⟨pieces, rfl, rfl, counted⟩ := exists_replaced later
        (fun other member => spelled other (by simp [split, member])) behind
      exact ⟨reference text ⟨.plain, record, next⟩ :: pieces, rfl, split.symm,
        countedFrom_cons_first.mpr ⟨rfl, counted⟩⟩
  | plain c :: first, [] => cases same
  | plain c :: first, plain d :: second =>
      simp only [sources_cons_plain, numbered, List.cons.injEq] at same
      obtain ⟨rfl, same⟩ := same
      have others : ∀ text ∈ spellings second,
          '{' ∉ text ∧ ∃ c rest, text = c :: rest ∧ isMark c = true := spelled
      obtain ⟨pieces, rfl, rfl, counted⟩ := exists_replaced later others same
      exact ⟨plain d :: pieces, rfl, rfl, (countedFrom_cons_plain d).mpr counted⟩
  | plain c :: first, reference text record :: second =>
      obtain ⟨unbraced, d, rest, rfl, _⟩ := spelled text (by simp)
      obtain ⟨back, split, behind⟩ := eq_plain_of_numbered unbraced same.symm
      cases split
      obtain ⟨pieces, rfl, rfl, counted⟩ := exists_replaced (later + 1)
        (fun other member => spelled other (by simp [member])) behind.symm
      exact ⟨reference (c :: rest) ⟨.bracketed, record, later⟩ :: pieces, rfl, rfl,
        countedFrom_cons_second.mpr ⟨rfl, counted⟩⟩
termination_by second.length
decreasing_by
  · exact shorter
  all_goals exact Nat.lt_succ_self _

end Piece

end NoteQuery
