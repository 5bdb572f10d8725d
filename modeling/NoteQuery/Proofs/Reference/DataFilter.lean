import Mathlib.Data.List.Nodup
import NoteQuery.Proofs.Placeholder.Replacing
import NoteQuery.Proofs.Query.Clauses

/-! # Data filters written back

Writing a data filter puts its paths back in the places of their placeholders. This gives the text
between the braces without the blanks at its ends, provided that each placeholder stands in the
pattern once (`DataFilter.written_ofBody`). When somebody typed one of these placeholders into the
data filter, it cannot be told from the one that stands for a path, and what is written is read as
another data filter (`DataFilter.ofBody_written_iff`).
-/

namespace NoteQuery

open Delimiters (braces)

/-- Numbering the pieces of a text that has no blanks at its ends gives such a text. -/
theorem Piece.trim_numbered {Record : Type} {pieces : List (Piece Record)}
    (kind : Placeholder) (next : Nat) (trimmed : (sources pieces).trim = sources pieces) :
    (numbered kind next pieces).trim = numbered kind next pieces := by
  obtain ⟨start, ends⟩ := Text.trim_eq_self_iff.mp trimmed
  refine Text.trim_eq_self_iff.mpr ⟨?_, ?_⟩
  · intro c first
    cases pieces with
    | nil => cases first
    | cons piece pieces =>
        cases piece with
        | plain d => exact start c first
        | reference spelling record =>
            cases first
            rfl
  · intro c last
    cases pieces using List.reverseRecOn with
    | nil => cases last
    | append_singleton pieces piece =>
        rw [numbered_append] at last
        cases piece with
        | plain d =>
            refine ends c ?_
            simpa [sources_append, numbered] using last
        | reference spelling record =>
            rw [numbered, numbered, List.append_nil, Placeholder.numbered, ← List.cons_append,
              ← List.append_assoc, List.getLast?_concat] at last
            cases last
            rfl

/-- Blanks around a text neither open nor close a brace. -/
theorem Delimiters.Balanced.trim {text : Text} (balanced : braces.Balanced text) :
    braces.Balanced text.trim := by
  obtain ⟨front, behind, whole, blank, blank'⟩ := Text.exists_append_trim_append text
  have unbraced {blanks : Text} (blank : ∀ c ∈ blanks, isBlank c = true) (c : Char)
      (brace : isBlank c = false) : c ∉ blanks := by
    intro member
    rw [blank c member] at brace
    cases brace
  have around {blanks : Text} (blank : ∀ c ∈ blanks, isBlank c = true) : braces.Balanced blanks :=
    Delimiters.balanced_of_not_mem (unbraced blank _ rfl) (unbraced blank _ rfl)
  rw [whole] at balanced
  have rest : braces.Balanced (text.trim ++ behind) :=
    (around blank).closes_append_iff.mp balanced
  refine ⟨fun start prefixed => rest.matched start (prefixed.trans (List.prefix_append _ _)), ?_⟩
  have total := rest.total
  rw [List.count_append, List.count_append, (around blank').total] at total
  omega

namespace DataFilter

variable {separated : Bool} {body front behind path : Text} {next : Nat} {cut : List (Piece Text)}
  {c : Char}

/-- The cut of a data filter loses nothing. -/
theorem sources_pieces (separated : Bool) (body : Text) :
    Piece.sources (pieces separated body) = body := by
  fun_induction DataFilter.pieces separated body with
  | case1 => rfl
  | case2 separated c rest dot path behind read ih =>
      rw [Bool.and_eq_true, beq_iff_eq] at dot
      rw [Piece.sources_cons_reference, ih, Text.run?_eq_some_append read, dot.2]
      rfl
  | case3 separated c rest dot read ih => rw [Piece.sources_cons_plain, ih]
  | case4 separated c rest other ih => rw [Piece.sources_cons_plain, ih]

/-- A path is spelled with a dot in front. -/
theorem spellings_pieces (separated : Bool) (body : Text) :
    Piece.spellings (DataFilter.pieces separated body) =
      (Piece.records (DataFilter.pieces separated body)).map ('.' :: ·) := by
  fun_induction DataFilter.pieces separated body with
  | case1 => rfl
  | case2 _ _ _ _ path behind _ ih =>
      rw [Piece.spellings_cons_reference, Piece.records_cons_reference, ih, List.map_cons]
  | case3 _ _ _ _ _ ih => exact ih
  | case4 _ _ _ _ ih => exact ih

/-- Paths consist of their characters only. -/
theorem isPath_of_mem_records (member : path ∈ Piece.records (DataFilter.pieces separated body)) :
    ∀ c ∈ path, isPath c = true := by
  fun_induction DataFilter.pieces separated body with
  | case1 => cases member
  | case2 _ _ _ _ found behind read ih =>
      rw [Piece.records_cons_reference, List.mem_cons] at member
      rcases member with rfl | later
      · exact (Text.run?_eq_some_iff.mp read).2.2.1
      · exact ih later
  | case3 _ _ _ _ _ ih => exact ih member
  | case4 _ _ _ _ ih => exact ih member

/-- A text without dots holds no path. -/
theorem pieces_of_not_mem (undotted : '.' ∉ body) (separated : Bool) :
    DataFilter.pieces separated body = body.map .plain := by
  induction body generalizing separated with
  | nil => rw [pieces, List.map_nil]
  | cons c body ih =>
      rw [List.mem_cons, not_or] at undotted
      have different : (c == '.') = false := beq_false_of_ne (Ne.symm undotted.1)
      rw [pieces, different, Bool.and_false, if_neg Bool.false_ne_true, ih undotted.2,
        List.map_cons]

theorem isPath_of_isBlank (blank : isBlank c = true) : isPath c = false := by
  by_contra inside
  simp only [isPath, Bool.not_eq_false, Bool.or_eq_true, beq_iff_eq] at inside
  rcases inside with ((word | rfl) | rfl) | rfl
  · rw [isBlank_of_isWord word] at blank
    cases blank
  all_goals cases blank

/-- Blanks in front of a data filter stay outside of its paths. -/
theorem pieces_append_of_blank (blank : ∀ c ∈ front, isBlank c = true) (body : Text) :
    pieces true (front ++ body) = front.map .plain ++ pieces true body := by
  induction front with
  | nil => rfl
  | cons c front ih =>
      have here := blank c List.mem_cons_self
      have undotted : (c == '.') = false := by
        refine beq_false_of_ne ?_
        rintro rfl
        cases here
      rw [List.cons_append, pieces, undotted, Bool.and_false, if_neg Bool.false_ne_true, separates,
        here, Bool.true_or, ih fun d member => blank d (List.mem_cons_of_mem _ member)]
      rfl

/-- Blanks behind a data filter stay outside of its paths. -/
theorem pieces_append_blank (blank : ∀ c ∈ behind, isBlank c = true) (separated : Bool)
    (body : Text) :
    pieces separated (body ++ behind) = pieces separated body ++ behind.map .plain := by
  have undotted : '.' ∉ behind := by
    intro member
    cases blank _ member
  have outside : ∀ c ∈ behind.head?, isPath c = false :=
    fun c first => isPath_of_isBlank (blank c (List.mem_of_mem_head? first))
  fun_induction pieces separated body with
  | case1 separated => exact pieces_of_not_mem undotted separated
  | case2 separated c rest dot path after read ih =>
      obtain ⟨rfl, filled, inside, stops⟩ := Text.run?_eq_some_iff.mp read
      have longer : Text.run? isPath (path ++ after ++ behind) = some (path, after ++ behind) := by
        rw [List.append_assoc]
        refine Text.run?_eq_some_iff.mpr ⟨rfl, filled, inside, ?_⟩
        cases after with
        | nil => exact outside
        | cons d after => exact stops
      rw [List.cons_append, pieces, if_pos dot]
      split
      · rename_i path' after' read'
        rw [longer] at read'
        cases read'
        rw [ih]
        rfl
      · rename_i read'
        rw [longer] at read'
        cases read'
  | case3 separated c rest dot read ih =>
      have unread : Text.run? isPath (rest ++ behind) = none := by
        rw [Text.run?_eq_none_iff] at read ⊢
        cases rest with
        | nil => exact outside
        | cons d rest => exact read
      rw [List.cons_append, pieces, if_pos dot]
      split
      · rename_i read'
        rw [unread] at read'
        cases read'
      · rw [ih]
        rfl
  | case4 separated c rest other ih =>
      rw [List.cons_append, pieces, if_neg other, ih]
      rfl

/-- The blanks at the ends of the text between the braces do not matter. -/
theorem ofBody_eq (body : Text) :
    ofBody body =
      ⟨Piece.numbered .expression 0 (pieces true body.trim),
        Piece.records (pieces true body.trim)⟩ := by
  obtain ⟨front, behind, whole, blank, blank'⟩ := Text.exists_append_trim_append body
  have kept : (Piece.numbered .expression 0 (pieces true body.trim)).trim =
      Piece.numbered .expression 0 (pieces true body.trim) := by
    refine Piece.trim_numbered .expression 0 ?_
    rw [sources_pieces, Text.trim_trim]
  have ends (next : Nat) : Piece.numbered .expression next
      (behind.map .plain : List (Piece Text)) = behind := by
    have written := Piece.numbered_map_plain_append .expression next behind ([] : List (Piece Text))
    rwa [Piece.numbered, List.append_nil, List.append_nil] at written
  have parts : pieces true body =
      front.map .plain ++ (pieces true body.trim ++ behind.map .plain) := by
    conv_lhs => rw [whole]
    rw [pieces_append_of_blank blank, pieces_append_blank blank']
  have records (text : Text) : Piece.records (text.map .plain : List (Piece Text)) = [] := by
    simp [Piece.records, List.filterMap_map, Function.comp_def, Piece.record?]
  rw [ofBody, parts, Piece.numbered_map_plain_append, Piece.numbered_append, ends,
    Text.trim_append_of_blank blank, Text.trim_append_blank kept blank']
  simp [Piece.records, Piece.record?, List.filterMap_map, Function.comp_def]

/-- Each placeholder of a path stands in the pattern once. -/
def Distinct (filter : DataFilter) : Prop :=
  ∀ number < filter.expressions.length,
    (Placeholder.expression.numerals filter.pattern).count (Text.ofNat number) = 1

instance (filter : DataFilter) : Decidable filter.Distinct :=
  inferInstanceAs (Decidable (∀ number < filter.expressions.length, _))

/-- Putting the paths back into the numbered pieces gives the text that these were cut from. -/
theorem restore_numbered (spelled : Piece.spellings cut = (Piece.records cut).map ('.' :: ·))
    (closed : ∀ path ∈ Piece.records cut, '{' ∉ '.' :: path)
    (once : ∀ number, next ≤ number → number < next + (Piece.records cut).length →
      (Placeholder.expression.numerals (front ++ Piece.numbered .expression next cut)).count
        (Text.ofNat number) = 1) :
    restore (front ++ Piece.numbered .expression next cut) next (Piece.records cut) =
      front ++ Piece.sources cut := by
  induction cut generalizing front next with
  | nil => rfl
  | cons piece cut ih =>
      cases piece with
      | plain c =>
          rw [Piece.numbered, List.append_cons] at once ⊢
          rw [Piece.records_cons_plain, ih spelled closed once, Piece.sources_cons_plain,
            ← List.append_cons]
      | reference spelling path =>
          rw [Piece.spellings_cons_reference, Piece.records_cons_reference, List.map_cons,
            List.cons.injEq] at spelled
          rw [Piece.records_cons_reference] at once closed ⊢
          rw [List.length_cons, Piece.numbered] at once
          have replaced : Text.replace (Placeholder.expression.numbered next) ('.' :: path)
              (front ++ (Placeholder.expression.numbered next ++
                Piece.numbered .expression (next + 1) cut)) =
                front ++ ('.' :: path ++ Piece.numbered .expression (next + 1) cut) :=
            Placeholder.replace_of_count_eq_one (once next le_rfl (by omega))
          rw [restore, Piece.numbered, replaced, ← List.append_assoc, ih spelled.2
            (fun other member => closed other (List.mem_cons_of_mem _ member)), spelled.1,
            Piece.sources_cons_reference, List.append_assoc]
          intro number after before
          rw [List.append_assoc, ← replaced,
            Placeholder.numerals_replace rfl (closed path List.mem_cons_self), List.count_filter,
            once number (by omega) (by omega)]
          simp only [decide_eq_true_eq, ne_eq, Placeholder.ofNat_injective.eq_iff]
          omega

/-- No path holds a brace. -/
theorem unbraced_of_mem_records (member : path ∈ Piece.records (pieces separated body)) :
    '{' ∉ '.' :: path ∧ '}' ∉ '.' :: path := by
  have inside : ∀ c ∈ '.' :: path, isPath c = true :=
    List.forall_mem_cons.mpr ⟨rfl, isPath_of_mem_records member⟩
  constructor
  · intro brace
    cases inside _ brace
  · intro brace
    cases inside _ brace

/-- A data filter is written as the text between its braces, without the blanks at the ends. -/
theorem written_ofBody (distinct : (ofBody body).Distinct) : (ofBody body).written = body.trim := by
  rw [written, ofBody_eq]
  rw [ofBody_eq, Distinct] at distinct
  have restored : restore ([] ++ Piece.numbered .expression 0 (pieces true body.trim)) 0
      (Piece.records (pieces true body.trim)) =
        [] ++ Piece.sources (pieces true body.trim) :=
    restore_numbered (spellings_pieces true body.trim)
      (fun path member => (unbraced_of_mem_records member).1)
      (fun number _ before => distinct number (by simpa using before))
  rwa [sources_pieces] at restored

/-- Putting the paths back takes their placeholders away. -/
theorem mem_numerals_of_restore {pattern numeral : Text} {paths : List Text}
    (closed : ∀ path ∈ paths, '{' ∉ '.' :: path)
    (member : numeral ∈ Placeholder.expression.numerals (restore pattern next paths)) :
    numeral ∈ Placeholder.expression.numerals pattern ∧
      ∀ number, next ≤ number → number < next + paths.length → numeral ≠ Text.ofNat number := by
  induction paths generalizing pattern next with
  | nil => exact ⟨member, fun number after before => by simp at before; omega⟩
  | cons path paths ih =>
      obtain ⟨inside, others⟩ :=
        ih (fun other listed => closed other (List.mem_cons_of_mem _ listed)) member
      rw [Placeholder.numerals_replace rfl (closed path List.mem_cons_self), List.mem_filter,
        decide_eq_true_eq] at inside
      refine ⟨inside.1, fun number after before => ?_⟩
      rw [List.length_cons] at before
      by_cases same : number = next
      · rw [same]
        exact inside.2
      · exact others number (by omega) (by omega)

/-- The pattern has the placeholders that somebody typed and one for each path. -/
theorem count_numerals_pattern {number : Nat} (before : number < (ofBody body).expressions.length) :
    (Placeholder.expression.numerals (ofBody body).pattern).count (Text.ofNat number) =
      (Placeholder.expression.numerals body.trim).count (Text.ofNat number) + 1 := by
  rw [ofBody_eq] at before ⊢
  have outer : ∀ spelling ∈ Piece.spellings (pieces true body.trim),
      (∃ c rest, spelling = c :: rest ∧ Placeholder.isInner c = false) ∧ '{' ∉ spelling := by
    rw [spellings_pieces]
    intro spelling member
    obtain ⟨path, listed, rfl⟩ := List.mem_map.mp member
    exact ⟨⟨'.', path, rfl, rfl⟩, (unbraced_of_mem_records listed).1⟩
  have alone {spelling : Text} (unbraced : '{' ∉ spelling) :
      Placeholder.expression.numerals spelling = [] := by
    have ends : Placeholder.expression.numerals (spelling ++ []) = [] :=
      Placeholder.numerals_append_of_not_mem unbraced []
    rwa [List.append_nil] at ends
  have balance := Piece.count_numerals_numbered_of_outer .expression .expression 0
    (fun spelling member => (outer spelling member).1)
    (fun spelling member rest => by
      rw [Placeholder.numerals_append_of_not_mem (outer spelling member).2,
        alone (outer spelling member).2, List.nil_append])
    (Text.ofNat number)
  have enclosed : (Piece.spellings (pieces true body.trim)).flatMap
      Placeholder.expression.numerals = [] :=
    List.flatMap_eq_nil_iff.mpr fun spelling member => alone (outer spelling member).2
  have added : ((List.range' 0 (Piece.records (pieces true body.trim)).length).map
      Text.ofNat).count (Text.ofNat number) = 1 :=
    List.count_eq_one_of_mem (List.Nodup.map Placeholder.ofNat_injective List.nodup_range')
      (List.mem_map_of_mem (List.mem_range'_1.mpr ⟨Nat.zero_le _, by simpa using before⟩))
  rwa [enclosed, List.count_nil, sources_pieces, if_pos rfl, added] at balance

/-- **What is written is read as the same data filter** exactly when nobody typed a placeholder of
one of its paths. -/
theorem ofBody_written_iff (body : Text) :
    ofBody (ofBody body).written = ofBody body ↔ (ofBody body).Distinct := by
  constructor
  · intro same number before
    have absent : Text.ofNat number ∉
        Placeholder.expression.numerals (ofBody body).written.trim := by
      intro member
      have inside := Placeholder.numbered_infix_iff.mp
        ((Placeholder.numbered_infix_iff.mpr member).trans (Text.trim_infix _))
      exact (mem_numerals_of_restore (fun path listed => (unbraced_of_mem_records listed).1)
        inside).2 number (Nat.zero_le _) (by rwa [Nat.zero_add]) rfl
    rw [← same] at before
    have counted := count_numerals_pattern before
    rwa [same, List.count_eq_zero_of_not_mem absent] at counted
  · intro distinct
    rw [written_ofBody distinct, ofBody_eq body.trim, Text.trim_trim, ← ofBody_eq]

/-- What replacing placeholders by paths preserves holds of what is written. -/
theorem written_induction {motive : Text → Prop}
    (pattern : motive (Piece.numbered .expression 0 (pieces true body.trim)))
    (replaced : ∀ number, ∀ path ∈ Piece.records (pieces true body.trim), ∀ text, motive text →
      motive (Text.replace (Placeholder.expression.numbered number) ('.' :: path) text)) :
    motive (ofBody body).written := by
  have restored {paths : List Text} (listed : paths ⊆ Piece.records (pieces true body.trim))
      {text : Text} (holds : motive text) (next : Nat) : motive (restore text next paths) := by
    induction paths generalizing text next with
    | nil => exact holds
    | cons path paths ih =>
        exact ih (List.subset_of_cons_subset listed)
          (replaced next path (listed List.mem_cons_self) text holds) (next + 1)
  rw [written, ofBody_eq]
  exact restored (List.Subset.refl _) pattern 0

theorem balanced_of_mem_records (member : path ∈ Piece.records (pieces separated body)) :
    braces.Balanced ('.' :: path) := by
  obtain ⟨unopened, unclosed⟩ := unbraced_of_mem_records member
  exact Delimiters.balanced_of_not_mem unopened unclosed

/-- Writing placeholders in the places of paths leaves a text balanced. -/
theorem balanced_numbered_pieces (balanced : braces.Balanced body) (separated : Bool) :
    braces.Balanced (Piece.numbered .expression 0 (pieces separated body)) := by
  refine Piece.balanced_numbered ?_ .expression 0 ?_
  · rw [spellings_pieces]
    intro spelling member
    obtain ⟨path, listed, rfl⟩ := List.mem_map.mp member
    exact balanced_of_mem_records listed
  · rwa [sources_pieces]

/-- A data filter with balanced braces between its own is written with balanced braces. -/
theorem balanced_written (balanced : braces.Balanced body) :
    braces.Balanced (ofBody body).written := by
  refine written_induction (balanced_numbered_pieces balanced.trim true) ?_
  intro number path listed text
  exact Placeholder.closes_replace (balanced_of_mem_records listed)

/-- A character that neither placeholders nor dots add is written only where it was read. -/
theorem mem_of_mem_written (outer : Placeholder.isInner c = false) (other : c ≠ '{')
    (undotted : c ≠ '.') (member : c ∈ (ofBody body).written) : c ∈ body := by
  revert member
  refine written_induction (motive := fun text => c ∈ text → c ∈ body) ?_ ?_
  · intro member
    have read := Piece.mem_sources_of_mem_numbered outer other member
    rw [sources_pieces] at read
    exact (Text.trim_infix body).mem read
  · intro number path listed text read member
    rcases Placeholder.mem_of_mem_replace member with inside | inside
    · exact read inside
    · have later := (List.mem_cons.mp inside).resolve_left undotted
      have spelled : '.' :: path ∈ Piece.spellings (pieces true body.trim) := by
        rw [spellings_pieces]
        exact List.mem_map_of_mem listed
      obtain ⟨before, record, behind, whole⟩ := Piece.split_of_mem_spellings spelled
      have sources := sources_pieces true body.trim
      rw [whole, Piece.sources_append, Piece.sources_cons_reference] at sources
      refine (Text.trim_infix body).mem ?_
      rw [← sources]
      simp [later]

end DataFilter

end NoteQuery
