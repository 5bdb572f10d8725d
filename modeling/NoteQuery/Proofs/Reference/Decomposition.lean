import NoteQuery.Proofs.Placeholder.Only
import NoteQuery.Proofs.Reference.DataFilter

/-! # What a data filter is cut into

When no placeholder was typed into a data filter, cutting it into a pattern and paths loses nothing
and leaves no path out (`DataFilter.ofBody_decomposes`): the placeholders of the pattern are one for
each path and in order (`Piece.numerals_numbered`), and behind a separator no path is left in it
(`DataFilter.not_holdsPath_numbered`).
-/

namespace NoteQuery

/-- A text in which nothing is read holds nothing at any of its places. -/
theorem Placeholder.numerals_eq_nil_of_suffix {kind : Placeholder} {place text : Text}
    (suffix : place <:+ text) (none : kind.numerals text = []) : kind.numerals place = [] := by
  refine List.eq_nil_iff_forall_not_mem.mpr fun numeral member => ?_
  obtain ⟨inner, within, read⟩ := mem_numerals_iff.mp member
  have outer : numeral ∈ kind.numerals text :=
    mem_numerals_iff.mpr ⟨inner, within.trans suffix, read⟩
  rw [none] at outer
  cases outer

/-- Where no placeholder was read, those that are written are those of the references, in order. -/
theorem Piece.numerals_numbered {Record : Type} {pieces : List (Piece Record)} {kind : Placeholder}
    {next : Nat}
    (opened : ∀ spelling ∈ spellings pieces,
      ∃ c rest, spelling = c :: rest ∧ Placeholder.isInner c = false)
    (untyped : kind.numerals (sources pieces) = []) :
    kind.numerals (numbered kind next pieces) =
      (List.range' next (records pieces).length).map Text.ofNat := by
  induction pieces generalizing next with
  | nil => rfl
  | cons piece pieces ih =>
      have rest : kind.numerals (sources pieces) = [] :=
        Placeholder.numerals_eq_nil_of_suffix ⟨piece.source, rfl⟩ untyped
      cases piece with
      | plain c =>
          have unread : kind.read? (c :: sources pieces) = none := by
            rw [sources_cons_plain, Placeholder.numerals, List.append_eq_nil_iff] at untyped
            exact Option.toList_eq_nil_iff.mp untyped.1
          have later : ∀ spelling ∈ spellings pieces,
              ∃ c rest, spelling = c :: rest ∧ Placeholder.isInner c = false := opened
          rw [numbered, Placeholder.numerals, read?_cons_numbered_of_outer kind kind next later,
            unread, records_cons_plain, ih later rest]
          rfl
      | reference spelling record =>
          have later : ∀ other ∈ spellings pieces,
              ∃ c rest, other = c :: rest ∧ Placeholder.isInner c = false :=
            fun other member => opened other (List.mem_cons_of_mem spelling member)
          rw [numbered, Placeholder.numerals_numbered_append, if_pos rfl, ih later rest,
            records_cons_reference, List.length_cons, List.range'_succ, List.map_cons]
          rfl

namespace DataFilter

variable {separated : Bool} {body text front rest path : Text} {next : Nat} {c : Char}

theorem ne_nil_of_mem_records (member : path ∈ Piece.records (pieces separated body)) :
    path ≠ [] := by
  fun_induction DataFilter.pieces separated body with
  | case1 => cases member
  | case2 _ _ _ _ found behind read ih =>
      rw [Piece.records_cons_reference, List.mem_cons] at member
      rcases member with rfl | later
      · exact Text.run?_ne_nil read
      · exact ih later
  | case3 _ _ _ _ _ ih => exact ih member
  | case4 _ _ _ _ ih => exact ih member

/-- A path with its dot stands behind a separator in a text. -/
def HoldsPath (text : Text) : Prop :=
  ∃ front c path behind, text = front ++ c :: '.' :: (path ++ behind) ∧ separates c = true ∧
    path ≠ [] ∧ ∀ d ∈ path, isPath d = true

/-- A path stands behind the first character or later. -/
theorem holdsPath_cons_iff :
    HoldsPath (c :: text) ↔
      (separates c = true ∧ ∃ rest, text = '.' :: rest ∧ Text.run? isPath rest ≠ none) ∨
        HoldsPath text := by
  constructor
  · rintro ⟨front, d, path, behind, same, separator, filled, inside⟩
    cases front with
    | nil =>
        obtain ⟨rfl, rfl⟩ := List.cons.inj same
        refine .inl ⟨separator, path ++ behind, rfl, fun unread => ?_⟩
        obtain ⟨e, path, rfl⟩ := List.exists_cons_of_ne_nil filled
        have outside := Text.run?_eq_none_iff.mp unread e rfl
        rw [inside e List.mem_cons_self] at outside
        cases outside
    | cons e front =>
        exact .inr ⟨front, d, path, behind, (List.cons.inj same).2, separator, filled, inside⟩
  · rintro (⟨separator, rest, rfl, read⟩ | ⟨front, d, path, behind, rfl, found⟩)
    · obtain ⟨⟨path, behind⟩, run⟩ := Option.ne_none_iff_exists'.mp read
      obtain ⟨rfl, filled, inside, _⟩ := Text.run?_eq_some_iff.mp run
      exact ⟨[], c, path, behind, rfl, separator, filled, inside⟩
    · exact ⟨c :: front, d, path, behind, rfl, found⟩

theorem not_holdsPath_nil : ¬ HoldsPath [] := by
  rintro ⟨front, c, path, behind, same, _⟩
  simp at same

/-- No path stands behind characters that do not separate. -/
theorem holdsPath_append_iff (unseparated : ∀ c ∈ front, separates c = false) :
    HoldsPath (front ++ text) ↔ HoldsPath text := by
  induction front with
  | nil => rfl
  | cons c front ih =>
      rw [List.cons_append, holdsPath_cons_iff, unseparated c List.mem_cons_self,
        ih fun d member => unseparated d (List.mem_cons_of_mem c member)]
      simp

theorem not_separates_of_mem_numbered {kind : Placeholder} {number : Nat}
    (member : c ∈ kind.numbered number) : separates c = false := by
  by_contra separator
  have outer : Placeholder.isInner c = false ∧ c ≠ '{' := by
    simp only [separates, Bool.not_eq_false, Bool.or_eq_true, beq_iff_eq] at separator
    rcases separator with blank | rfl
    · refine ⟨Placeholder.isInner_of_isBlank blank, ?_⟩
      rintro rfl
      cases blank
    · decide
  exact Placeholder.not_mem_numbered outer.1 outer.2 member

/-- Where no path can start, the first character is written as it is. -/
theorem head?_numbered_pieces (kind : Placeholder) (next : Nat) (text : Text) :
    (Piece.numbered kind next (pieces false text)).head? = text.head? := by
  cases text with
  | nil => rw [pieces]; rfl
  | cons c rest => rw [pieces, Bool.false_and, if_neg Bool.false_ne_true]; rfl

/-- No path is left behind a separator once the paths are replaced. -/
theorem not_holdsPath_numbered (kind : Placeholder) (next : Nat) (body : Text)
    (before : separates c = separated) :
    ¬ HoldsPath (c :: Piece.numbered kind next (pieces separated body)) := by
  fun_induction pieces separated body generalizing c next with
  | case1 separated =>
      rw [Piece.numbered, holdsPath_cons_iff]
      rintro (⟨_, _, same, _⟩ | held)
      · cases same
      · exact not_holdsPath_nil held
  | case2 separated d rest dot path behind read ih =>
      rw [Piece.numbered, holdsPath_cons_iff,
        holdsPath_append_iff fun _ => not_separates_of_mem_numbered]
      rintro (⟨_, _, same, _⟩ | held)
      · cases (List.cons.inj same).1
      · have closing : separates '}' = false := by decide
        exact ih (next + 1) closing (holdsPath_cons_iff.mpr (.inr held))
  | case3 separated d rest dot unread ih =>
      rw [Bool.and_eq_true, beq_iff_eq] at dot
      obtain ⟨_, rfl⟩ := dot
      rw [Piece.numbered, holdsPath_cons_iff]
      rintro (⟨_, later, same, read⟩ | held)
      · obtain ⟨_, rfl⟩ := List.cons.inj same
        refine read (Text.run?_eq_none_iff.mpr ?_)
        rw [head?_numbered_pieces]
        exact Text.run?_eq_none_iff.mp unread
      · have unseparated : separates '.' = false := by decide
        exact ih next unseparated held
  | case4 separated d rest other ih =>
      rw [Piece.numbered, holdsPath_cons_iff]
      rintro (⟨separator, later, same, _⟩ | held)
      · obtain ⟨rfl, _⟩ := List.cons.inj same
        rw [before] at separator
        exact other (by simp [separator])
      · exact ih next rfl held

/-- **A data filter is cut without loss and completely** when no placeholder was typed into it. It
is written as its text without the blanks at its ends, the placeholders of the pattern are those of
its paths, and no path is left in the pattern. -/
theorem ofBody_decomposes (untyped : ¬ ('{' :: Placeholder.expression.word) <:+: body) :
    (ofBody body).written = body.trim ∧
      Placeholder.expression.numerals (ofBody body).pattern =
        (List.range (ofBody body).expressions.length).map Text.ofNat ∧
      (∀ path ∈ (ofBody body).expressions, path ≠ [] ∧ ∀ c ∈ path, isPath c = true) ∧
      ¬ HoldsPath (' ' :: (ofBody body).pattern) := by
  have unread : Placeholder.expression.numerals body.trim = [] :=
    Placeholder.numerals_eq_nil fun typed => untyped (typed.trans body.trim_infix)
  have opened : ∀ spelling ∈ Piece.spellings (pieces true body.trim),
      ∃ c rest, spelling = c :: rest ∧ Placeholder.isInner c = false := by
    rw [spellings_pieces]
    intro spelling member
    obtain ⟨path, _, rfl⟩ := List.mem_map.mp member
    exact ⟨'.', path, rfl, rfl⟩
  refine ⟨?_, ?_, ?_, ?_⟩
  · refine written_ofBody fun number before => ?_
    rw [count_numerals_pattern before, unread, List.count_nil]
  · rw [ofBody_eq, List.range_eq_range']
    refine Piece.numerals_numbered opened ?_
    rw [sources_pieces]
    exact unread
  · rw [ofBody_eq]
    exact fun path member => ⟨ne_nil_of_mem_records member, isPath_of_mem_records member⟩
  · rw [ofBody_eq]
    exact not_holdsPath_numbered .expression 0 body.trim rfl

/-- More than ten paths, at the ends, next to one another and next to a brace. -/
theorem ofBody_decomposes_twelve :
    let body : Text :=
      "\u3000.a(.b.[0] .c\t.d\u00a0.é .. .e\x7b.f (.g) .h .i .j_1 .k .l.\u2003".toList
    ¬ ('{' :: Placeholder.expression.word) <:+: body ∧
      (ofBody body).expressions.length = 12 ∧
      (ofBody body).written = body.trim ∧
      Placeholder.expression.numerals (ofBody body).pattern =
        (List.range (ofBody body).expressions.length).map Text.ofNat := by
  intro body
  have untyped : ¬ ('{' :: Placeholder.expression.word) <:+: body := by decide +kernel
  obtain ⟨written, numerals, _⟩ := ofBody_decomposes untyped
  exact ⟨untyped, by decide +kernel, written, numerals⟩

end DataFilter

end NoteQuery
