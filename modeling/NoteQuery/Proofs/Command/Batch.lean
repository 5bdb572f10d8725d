import Mathlib.Data.List.Basic
import NoteQuery.Command.Batch

/-! # Reports on the lines of a file

The report on a file says of each line that is a query whether it was compiled, in the order of the
lines (`Command.LineByLine`). Writing one text behind another one, on lines of its own, puts the
second report behind the first, with the numbers of its lines shifted
(`Command.batch_line_by_line`).
-/

namespace NoteQuery

namespace Text

variable {text : Text}

/-- A text that is not empty has a line. -/
theorem lines_ne_nil (filled : text ≠ []) : text.lines ≠ [] := by
  obtain ⟨c, rest, rfl⟩ := List.exists_cons_of_ne_nil filled
  rw [lines]
  split
  · exact List.cons_ne_nil _ _
  · split <;> exact List.cons_ne_nil _ _

/-- A line feed ends a line: what stands behind it makes lines of its own. -/
theorem lines_append (first second : Text) :
    lines (first ++ '\n' :: second) = lines (first ++ ['\n']) ++ lines second := by
  induction first with
  | nil => rfl
  | cons c first ih =>
      rw [List.cons_append, List.cons_append, lines, lines]
      by_cases feed : c = '\n'
      · rw [if_pos feed, if_pos feed, ih, List.cons_append]
      · obtain ⟨line, more, same⟩ := List.exists_cons_of_ne_nil
          (lines_ne_nil (List.append_ne_nil_of_right_ne_nil first (List.cons_ne_nil '\n' [])))
        rw [if_neg feed, if_neg feed, ih, same]
        rfl

/-- A line feed at the end of a text adds at most an empty line. -/
theorem lines_append_feed (text : Text) :
    lines (text ++ ['\n']) = text.lines ∨ lines (text ++ ['\n']) = text.lines ++ [[]] := by
  induction text with
  | nil => exact .inr rfl
  | cons c text ih =>
      rw [List.cons_append, lines, lines]
      by_cases feed : c = '\n'
      · rw [if_pos feed, if_pos feed]
        exact ih.imp (congrArg _) (congrArg _)
      · rw [if_neg feed, if_neg feed]
        rcases ih with same | longer
        · exact .inl (by rw [same])
        · rw [longer]
          cases lines text with
          | nil => exact .inl rfl
          | cons line more => exact .inr rfl

end Text

namespace Command

open Text

/-- Whether a line without the blanks around it is a query: it is not empty and no comment. -/
def IsQuery (source : Text) : Prop :=
  source ≠ [] ∧ ¬ ['/', '/'] <+: source

instance (source : Text) : Decidable (IsQuery source) :=
  inferInstanceAs (Decidable (_ ∧ _))

/-- A line is compiled exactly when it holds a query. -/
theorem isQuery_iff {source : Text} :
    (!source.isEmpty && !isComment source) = true ↔ IsQuery source := by
  rw [Bool.and_eq_true, Bool.not_eq_true', Bool.not_eq_true', List.isEmpty_eq_false_iff,
    ← Bool.not_eq_true, isComment, List.isPrefixOf_iff_prefix, IsQuery]

/-- A query of a file that cannot be compiled. -/
structure FailedQuery where
  line : Nat
  error : QueryError

namespace FailedQuery

/-- The message about a query that cannot be compiled. -/
def message (failed : FailedQuery) : Message :=
  ⟨.error, "line " ++ toString failed.line ++ ": " ++ failed.error.message⟩

/-- The same failure, some lines further down. -/
def shift (failed : FailedQuery) (lines : Nat) : FailedQuery :=
  { failed with line := failed.line + lines }

end FailedQuery

/-- The message behind those about the queries: how many of them were compiled, or that there were
none. -/
def outcome (path : String) (compiled total : Nat) : Message :=
  if total = 0 then ⟨.warning, "No queries found in " ++ path⟩
  else ⟨.info, "Compiled " ++ toString compiled ++ " of " ++ toString total ++ " queries"⟩

/-- A report says of each line of a text that is a query, in the order of the lines, what it was
compiled to or why it failed, and at the end how many queries were compiled. -/
structure LineByLine (path : String) (text : Text) (report : Report)
    (failed : List FailedQuery) : Prop where
  mem_compiled_iff : ∀ entry, entry ∈ report.compiled ↔
    ∃ index line, text.lines[index]? = some line ∧ IsQuery line.trim ∧
      entry.line = some (index + 1) ∧ entry.source = line.trim ∧
      Descriptor.compile line.trim = .ok entry.descriptor
  compiled_ordered : report.compiled.Pairwise fun earlier later =>
    ∀ first ∈ earlier.line, ∀ second ∈ later.line, first < second
  mem_failed_iff : ∀ failure, failure ∈ failed ↔
    ∃ index line, text.lines[index]? = some line ∧ IsQuery line.trim ∧
      failure.line = index + 1 ∧ Descriptor.compile line.trim = .error failure.error
  failed_ordered : failed.Pairwise fun earlier later => earlier.line < later.line
  counted : report.compiled.length + failed.length =
    text.lines.countP fun line => IsQuery line.trim
  messages : report.messages = failed.map FailedQuery.message ++
    [outcome path report.compiled.length (report.compiled.length + failed.length)]

namespace QueryLine

/-- The failure of a query that cannot be compiled. -/
def failure? (query : QueryLine) : Option FailedQuery :=
  match Descriptor.compile query.source with
  | .ok _ => none
  | .error error => some ⟨query.line, error⟩

/-- The same query, some lines further down. -/
def shift (query : QueryLine) (lines : Nat) : QueryLine :=
  { query with line := query.line + lines }

theorem error?_eq (query : QueryLine) : query.error? = query.failure?.map FailedQuery.message := by
  unfold error? failure?
  cases Descriptor.compile query.source <;> rfl

/-- A query that stands some lines further down compiles to the same, with the number of its line
moved. -/
theorem compiled?_shift (query : QueryLine) (lines : Nat) :
    (query.shift lines).compiled? =
      query.compiled?.map fun entry => { entry with line := entry.line.map (· + lines) } := by
  unfold compiled? shift
  cases Descriptor.compile query.source <;> rfl

/-- A query that stands some lines further down fails in the same way, with the number of its line
moved. -/
theorem failure?_shift (query : QueryLine) (lines : Nat) :
    (query.shift lines).failure? = query.failure?.map (·.shift lines) := by
  unfold failure? shift
  cases Descriptor.compile query.source <;> rfl

/-- The entry of a query has its line, its source and what it compiles to. -/
theorem compiled?_eq_some_iff {query : QueryLine} {entry : CompiledQuery} :
    query.compiled? = some entry ↔ entry.line = some query.line ∧ entry.source = query.source ∧
      Descriptor.compile query.source = .ok entry.descriptor := by
  obtain ⟨source, line, descriptor⟩ := entry
  unfold compiled?
  cases Descriptor.compile query.source with
  | ok found => simp [eq_comm, and_left_comm]
  | error error => simp

/-- The failure of a query has its line and the error that it is refused with. -/
theorem failure?_eq_some_iff {query : QueryLine} {failed : FailedQuery} :
    query.failure? = some failed ↔ failed.line = query.line ∧
      Descriptor.compile query.source = .error failed.error := by
  obtain ⟨line, error⟩ := failed
  unfold failure?
  cases Descriptor.compile query.source with
  | ok found => simp
  | error error => simp [eq_comm]

end QueryLine

section Queries

variable {text : Text}

/-- The queries of a file are its trimmed lines that hold one, numbered from one. -/
theorem mem_queryLines_iff {query : QueryLine} :
    query ∈ queryLines text ↔ ∃ index line, text.lines[index]? = some line ∧
      IsQuery line.trim ∧ query = { line := index + 1, source := line.trim } := by
  simp only [queryLines, List.mem_filter, List.mem_map, Prod.exists,
    List.mk_mem_zipIdx_iff_le_and_getElem?_sub]
  constructor
  · rintro ⟨⟨line, number, ⟨counted, found⟩, rfl⟩, isQuery⟩
    refine ⟨number - 1, line, found, isQuery_iff.mp isQuery, ?_⟩
    rw [Nat.sub_add_cancel counted]
  · rintro ⟨index, line, found, isQuery, rfl⟩
    exact ⟨⟨line, index + 1, ⟨Nat.le_add_left 1 index, found⟩, rfl⟩, isQuery_iff.mpr isQuery⟩

/-- The queries of a text are in the order of their lines. -/
theorem queryLines_ordered (text : Text) :
    (queryLines text).Pairwise fun earlier later => earlier.line < later.line := by
  refine List.Pairwise.filter _ (List.pairwise_map.mpr ?_)
  have numbers : ((text.lines.zipIdx 1).map Prod.snd).Pairwise (· < ·) := by
    rw [List.zipIdx_map_snd]
    exact List.pairwise_lt_range'
  exact List.pairwise_map.mp numbers

/-- There are as many queries as lines that hold one. -/
theorem length_queryLines (text : Text) :
    (queryLines text).length = text.lines.countP fun line => IsQuery line.trim := by
  have unnumbered : (text.lines.zipIdx 1).map Prod.fst = text.lines := List.zipIdx_map_fst 1 _
  rw [queryLines, ← List.countP_eq_length_filter, List.countP_map]
  conv => rhs; rw [← unnumbered, List.countP_map]
  exact List.countP_congr fun numbered _ => isQuery_iff.trans decide_eq_true_iff.symm

/-- An empty line at the end holds no query. -/
theorem queryLines_append_feed (text : Text) : queryLines (text ++ ['\n']) = queryLines text := by
  rcases lines_append_feed text with same | longer
  · rw [queryLines, same, queryLines]
  · rw [queryLines, longer, queryLines, List.zipIdx_append, List.map_append, List.filter_append]
    exact List.append_nil _

/-- The queries of two texts, one below the other. -/
theorem queryLines_append (first second : Text) :
    queryLines (first ++ '\n' :: second) = queryLines first ++
      (queryLines second).map (·.shift (lines (first ++ ['\n'])).length) := by
  rw [← queryLines_append_feed first, queryLines, lines_append, List.zipIdx_append, List.map_append,
    List.filter_append, Nat.add_comm 1]
  congr 1
  rw [← List.map_snd_add_zipIdx_eq_zipIdx, List.map_map, List.filter_map, queryLines,
    List.filter_map, List.map_map]
  rfl

end Queries

/-- The queries of a text that cannot be compiled. -/
def failures (text : Text) : List FailedQuery :=
  (queryLines text).filterMap QueryLine.failure?

variable {path : String}

/-- What a file compiles to is what its parts compile to, with the lines of the second one moved. -/
theorem batchText_compiled_append (first second : Text) :
    (batchText path (first ++ '\n' :: second)).compiled = (batchText path first).compiled ++
      (batchText path second).compiled.map fun entry =>
        { entry with line := entry.line.map (· + (lines (first ++ ['\n'])).length) } := by
  simp only [batchText, queryLines_append, List.filterMap_append, List.filterMap_map,
    List.map_filterMap]
  congr 2
  funext query
  exact query.compiled?_shift _

/-- The failures of a file are those of its parts, with the lines of the second one moved. -/
theorem failures_append (first second : Text) :
    failures (first ++ '\n' :: second) =
      failures first ++ (failures second).map (·.shift (lines (first ++ ['\n'])).length) := by
  simp only [failures, queryLines_append, List.filterMap_append, List.filterMap_map,
    List.map_filterMap]
  congr 2
  funext query
  exact query.failure?_shift _

/-- Each query is either compiled or fails. -/
theorem length_compiled_add_length_failures (queries : List QueryLine) :
    (queries.filterMap QueryLine.compiled?).length + (queries.filterMap QueryLine.failure?).length =
      queries.length := by
  induction queries with
  | nil => rfl
  | cons query queries ih =>
      cases outcome : Descriptor.compile query.source with
      | ok descriptor =>
          have compiled : query.compiled? = some ⟨query.source, some query.line, descriptor⟩ := by
            rw [QueryLine.compiled?, outcome]
          have noFailure : query.failure? = none := by rw [QueryLine.failure?, outcome]
          rw [List.filterMap_cons_some compiled, List.filterMap_cons_none noFailure,
            List.length_cons, List.length_cons, Nat.add_right_comm, ih]
      | error error =>
          have notCompiled : query.compiled? = none := by rw [QueryLine.compiled?, outcome]
          have failure : query.failure? = some ⟨query.line, error⟩ := by
            rw [QueryLine.failure?, outcome]
          rw [List.filterMap_cons_none notCompiled, List.filterMap_cons_some failure,
            List.length_cons, List.length_cons, ← Nat.add_assoc, ih]

theorem lineByLine_batchText (path : String) (text : Text) :
    LineByLine path text (batchText path text) (failures text) where
  mem_compiled_iff entry := by
    simp only [batchText, List.mem_filterMap, mem_queryLines_iff, QueryLine.compiled?_eq_some_iff]
    constructor
    · rintro ⟨_, ⟨index, line, found, isQuery, rfl⟩, compiled⟩
      exact ⟨index, line, found, isQuery, compiled⟩
    · rintro ⟨index, line, found, isQuery, compiled⟩
      exact ⟨_, ⟨index, line, found, isQuery, rfl⟩, compiled⟩
  compiled_ordered := by
    refine List.Pairwise.filterMap _ ?_ (queryLines_ordered text)
    rintro earlier later before _ compiled _ next
    rw [(QueryLine.compiled?_eq_some_iff.mp compiled).1,
      (QueryLine.compiled?_eq_some_iff.mp next).1]
    rintro _ ⟨⟩ _ ⟨⟩
    exact before
  mem_failed_iff failure := by
    simp only [failures, List.mem_filterMap, mem_queryLines_iff, QueryLine.failure?_eq_some_iff]
    constructor
    · rintro ⟨_, ⟨index, line, found, isQuery, rfl⟩, failed⟩
      exact ⟨index, line, found, isQuery, failed⟩
    · rintro ⟨index, line, found, isQuery, failed⟩
      exact ⟨_, ⟨index, line, found, isQuery, rfl⟩, failed⟩
  failed_ordered := by
    refine List.Pairwise.filterMap _ ?_ (queryLines_ordered text)
    rintro earlier later before _ failed _ next
    rw [(QueryLine.failure?_eq_some_iff.mp failed).1, (QueryLine.failure?_eq_some_iff.mp next).1]
    exact before
  counted := (length_compiled_add_length_failures _).trans (length_queryLines text)
  messages := by
    have errors : (queryLines text).filterMap QueryLine.error? =
        (failures text).map FailedQuery.message := by
      rw [failures, List.map_filterMap]
      exact List.filterMap_congr fun query _ => query.error?_eq
    simp only [batchText, failures, length_compiled_add_length_failures, outcome,
      List.isEmpty_iff_length_eq_zero, errors]

/-- The text of a file is read from its bytes. -/
theorem batch_eq (path : String) (text : Text) :
    batch path (some (String.ofList text).toUTF8) = .ok (batchText path text) := by
  have read : (some (String.ofList text).toUTF8 >>= String.fromUTF8?) = some (String.ofList text) :=
    dif_pos (String.ofList text).isValidUTF8
  rw [batch, textOfFile, read]
  change Except.ok (batchText path (String.ofList text).toList) = _
  rw [String.toList_ofList]

/-- A file is compiled line by line, and a text below another one adds its own report to that on
the first one, with the numbers of its lines shifted. -/
theorem batch_line_by_line (path : String) (first second : Text) :
    ∃ (above below whole : Report) (failedAbove failedBelow : List FailedQuery),
      batch path (some (String.ofList first).toUTF8) = .ok above ∧
      LineByLine path first above failedAbove ∧
      batch path (some (String.ofList second).toUTF8) = .ok below ∧
      LineByLine path second below failedBelow ∧
      batch path (some (String.ofList (first ++ '\n' :: second)).toUTF8) = .ok whole ∧
      LineByLine path (first ++ '\n' :: second) whole
        (failedAbove ++ failedBelow.map (·.shift (lines (first ++ ['\n'])).length)) ∧
      whole.compiled = above.compiled ++ below.compiled.map fun entry =>
        { entry with line := entry.line.map (· + (lines (first ++ ['\n'])).length) } := by
  refine ⟨_, _, _, failures first, failures second, batch_eq path first,
    lineByLine_batchText path first, batch_eq path second, lineByLine_batchText path second,
    batch_eq path _, ?_, batchText_compiled_append first second⟩
  rw [← failures_append]
  exact lineByLine_batchText path _

end Command

end NoteQuery
