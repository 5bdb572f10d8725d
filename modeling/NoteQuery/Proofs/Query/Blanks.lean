import NoteQuery.Proofs.Command.Batch
import NoteQuery.Proofs.Query.Splitting
import NoteQuery.Query.Descriptor

/-! # Blanks around a query

A query means the same with any blanks around it (`Descriptor.compile_of_blanks`), since its outline
is the same (`Outline.ofQuery_of_blanks`): a separator takes one blank on either side, and what is
left of the others ends up at an end of a clause or of an item, where it is trimmed. So a line of a
file is compiled as its query is.
-/

namespace NoteQuery

namespace Text

variable {blanks : Text}

/-- Blanks behind a text are trimmed. -/
theorem trim_append_blanks (blank : ∀ c ∈ blanks, isBlank c = true) (text : Text) :
    trim (text ++ blanks) = trim text := by
  obtain ⟨front, behind, whole, front_blank, behind_blank⟩ := exists_append_trim_append text
  have outer : ∀ c ∈ behind ++ blanks, isBlank c = true :=
    List.forall_mem_append.mpr ⟨behind_blank, blank⟩
  calc trim (text ++ blanks)
      = trim (front ++ (text.trim ++ (behind ++ blanks))) := by
        rw [← List.append_assoc text.trim, ← List.append_assoc, ← whole]
    _ = text.trim := by
        rw [trim_append_of_blank front_blank, trim_append_blank text.trim_trim outer]

theorem trim_append_space (text : Text) : trim (text ++ [' ']) = trim text := by
  have blank : ∀ c ∈ [' '], isBlank c = true := List.forall_mem_singleton.mpr rfl
  exact trim_append_blanks blank text

theorem trim_trimEnd (text : Text) : text.trimEnd.trim = text.trim := by
  obtain ⟨blanks, whole, blank⟩ := exists_trimEnd_append text
  calc text.trimEnd.trim
      = (text.trimEnd ++ blanks).trim := (trim_append_blanks blank _).symm
    _ = text.trim := by rw [← whole]

end Text

namespace Separator

variable {separator : Separator} {text front behind blanks : Text} {c d : Char}

theorem length_of_cut? (cut : separator.cut? text = some (front, behind)) : 10 ≤ text.length := by
  by_contra short
  rw [cut?_eq_none_iff.mpr (not_occurs_of_length (not_le.mp short))] at cut
  cases cut

/-- Whether a separator starts a text is seen in its first ten characters. -/
theorem after?_append (long : 10 ≤ text.length) (more : Text) :
    separator.after? (text ++ more) = (separator.after? text).map (· ++ more) := by
  cases read : separator.after? text with
  | some behind =>
      obtain ⟨spelled, word, rfl⟩ := after?_eq_some_iff.mp read
      exact after?_eq_some_iff.mpr ⟨spelled, word, List.append_assoc _ _ _⟩
  | none =>
      rw [Option.map_none, Option.eq_none_iff_forall_ne_some]
      intro behind found
      obtain ⟨spelled, word, whole⟩ := after?_eq_some_iff.mp found
      obtain ⟨rest, rfl⟩ : spelled <+: text := by
        refine List.prefix_of_prefix_length_le ⟨behind, whole.symm⟩
          (List.prefix_append text more) ?_
        rwa [word.length_eq]
      rw [after?_eq_some_iff.mpr ⟨spelled, word, rfl⟩] at read
      cases read

/-- The first separator of a text is the first one of any longer text. -/
theorem cut?_append_of_cut? (cut : separator.cut? text = some (front, behind)) (more : Text) :
    separator.cut? (text ++ more) = some (front, behind ++ more) := by
  have long := length_of_cut? cut
  induction text generalizing front with
  | nil => cases cut
  | cons c rest ih =>
      have here : separator.after? (c :: (rest ++ more)) =
          (separator.after? (c :: rest)).map (· ++ more) := after?_append long more
      rw [cut?_cons] at cut
      rw [List.cons_append, cut?_cons, here]
      cases read : separator.after? (c :: rest) with
      | some found =>
          rw [read] at cut
          cases cut
          rfl
      | none =>
          rw [read] at cut
          obtain ⟨⟨shorter, _⟩, later, same⟩ := Option.map_eq_some_iff.mp cut
          cases same
          rw [Option.map_none, ih later (length_of_cut? later)]
          rfl

/-- What a cut takes is a separator. -/
theorem exists_spelled_of_cut? (cut : separator.cut? text = some (front, behind)) :
    ∃ spelled, separator.Spelled spelled ∧ text = front ++ (spelled ++ behind) := by
  induction text generalizing front with
  | nil => cases cut
  | cons c rest ih =>
      rw [cut?_cons] at cut
      cases read : separator.after? (c :: rest) with
      | some found =>
          rw [read] at cut
          cases cut
          exact after?_eq_some_iff.mp read
      | none =>
          rw [read] at cut
          obtain ⟨⟨shorter, _⟩, later, same⟩ := Option.map_eq_some_iff.mp cut
          cases same
          obtain ⟨spelled, word, rfl⟩ := ih later
          exact ⟨spelled, word, rfl⟩

/-- A separator that a last character completes stands at the end. -/
theorem cut?_concat (free : separator.cut? text = none) (occurs : separator.Occurs (text ++ [c])) :
    separator.cut? (text ++ [c]) = some (text.take (text.length - 9), []) := by
  cases cut : separator.cut? (text ++ [c]) with
  | none => exact (cut?_eq_none_iff.mp cut occurs).elim
  | some found =>
      obtain ⟨front, behind⟩ := found
      obtain ⟨spelled, word, whole⟩ := exists_spelled_of_cut? cut
      have counted := congrArg List.length whole
      simp only [List.length_append, List.length_singleton, word.length_eq] at counted
      have ends : behind = [] := by
        by_contra filled
        obtain ⟨shorter, last, rfl⟩ := (List.eq_nil_or_concat behind).resolve_left filled
        have split : text ++ [c] = (front ++ spelled ++ shorter) ++ [last] := by
          rw [whole]
          simp
        refine cut?_eq_none_iff.mp free ⟨spelled, word, front, shorter, ?_⟩
        exact (List.append_inj' split rfl).1.symm
      subst ends
      rw [List.length_nil] at counted
      have start : front <+: text := by
        refine List.prefix_of_prefix_length_le ⟨_, whole.symm⟩ (List.prefix_append text [c]) ?_
        omega
      rw [show text.length - 9 = front.length by omega, ← List.prefix_iff_eq_take.mp start]

/-- Blanks in front of the blank that was added behind a text change a cut by blanks at its end. -/
theorem cut?_append_blanks (separator : Separator) (blank : ∀ c ∈ blanks, isBlank c = true)
    (text : Text) :
    (separator.cut? (text ++ (blanks ++ [' ']))).map (Prod.map id Text.trimEnd) =
      (separator.cut? (text ++ [' '])).map (Prod.map id Text.trimEnd) := by
  have added : isBlank ' ' = true := rfl
  have outer : ∀ c ∈ blanks ++ [' '], isBlank c = true :=
    List.forall_mem_append.mpr ⟨blank, List.forall_mem_singleton.mpr added⟩
  cases cut : separator.cut? text with
  | some found =>
      obtain ⟨front, behind⟩ := found
      rw [cut?_append_of_cut? cut, cut?_append_of_cut? cut]
      simp only [Option.map_some, Prod.map, id, Text.trimEnd_append_of_blank outer,
        Text.trimEnd_append_of_blank (List.forall_mem_singleton.mpr added)]
  | none =>
      by_cases occurs : separator.Occurs (text ++ [' '])
      · -- The first of the blanks completes the separator just as the added one does.
        obtain ⟨c, more, split⟩ := List.exists_cons_of_ne_nil
          (List.append_ne_nil_of_right_ne_nil blanks (List.cons_ne_nil ' ' []))
        rw [split] at outer ⊢
        have completed := cut?_concat cut (occurs.replace_last (outer c List.mem_cons_self))
        have longer := cut?_append_of_cut? completed more
        rw [List.append_assoc, List.singleton_append] at longer
        have trimmed : Text.trimEnd ([] ++ more) = Text.trimEnd [] :=
          Text.trimEnd_append_of_blank fun d member => outer d (List.mem_cons_of_mem c member)
        rw [longer, cut?_concat cut occurs]
        simp only [Option.map_some, Prod.map, trimmed]
      · rw [cut?_eq_none_iff.mpr occurs]
        rw [← occurs_append_append_iff added blank, ← cut?_eq_none_iff] at occurs
        rw [occurs]

/-- A blank behind a first blank is taken by a separator in its place, or it stays with what is in
front of the separator. -/
theorem cut?_cons_blank (separator : Separator) (blank : isBlank c = true)
    (other : isBlank d = true) (rest : Text) :
    (∃ behind, separator.cut? (c :: rest) = some ([], behind) ∧
      separator.cut? (c :: d :: rest) = some ([c], behind)) ∨
    (separator.cut? (c :: rest) =
        (separator.cut? rest).map fun (front, behind) => (c :: front, behind)) ∧
      separator.cut? (c :: d :: rest) =
        (separator.cut? rest).map fun (front, behind) => (c :: d :: front, behind) := by
  have alike : separator.after? (d :: rest) = separator.after? (c :: rest) := by
    simp only [after?, blank, other]
  have shifted : separator.cut? (c :: d :: rest) =
      (separator.cut? (d :: rest)).map fun (front, behind) => (c :: front, behind) := by
    rw [cut?_cons, after?_eq_none_of_blank other]
  rw [shifted, cut?_cons, cut?_cons, alike]
  cases separator.after? (c :: rest) with
  | some behind => exact .inl ⟨behind, rfl, rfl⟩
  | none =>
      refine .inr ⟨rfl, ?_⟩
      cases separator.cut? rest <;> rfl

end Separator

namespace Grouping

variable {blanks : Text}

/-- Blanks make up one item. -/
theorem items_blanks (blank : ∀ c ∈ blanks, isBlank c = true) (quoted : Bool) (depth : Nat) :
    items quoted depth blanks = [blanks] := by
  induction blanks generalizing quoted depth with
  | nil => rfl
  | cons c blanks ih =>
      have joined : c = ',' → quoted = true ∨ 0 < depth := by
        rintro rfl
        cases blank _ List.mem_cons_self
      rw [items_cons joined, ih fun d member => blank d (List.mem_cons_of_mem c member)]
      rfl

/-- Blanks behind a text stay in its last item. -/
theorem items_append_blanks (blank : ∀ c ∈ blanks, isBlank c = true) (quoted : Bool) (depth : Nat)
    (text : Text) :
    ∃ front last, items quoted depth text = front ++ [last] ∧
      items quoted depth (text ++ blanks) = front ++ [last ++ blanks] := by
  induction text generalizing quoted depth with
  | nil => exact ⟨[], [], rfl, items_blanks blank quoted depth⟩
  | cons c text ih =>
      rw [List.cons_append, items, items]
      split
      · obtain ⟨front, last, same, longer⟩ := ih quoted depth
        exact ⟨[] :: front, last, congrArg _ same, congrArg _ longer⟩
      · obtain ⟨front, last, same, longer⟩ := ih (if c = '\'' then !quoted else quoted)
          (if quoted then depth
            else if c = '(' then depth + 1
            else if c = ')' then depth - 1
            else depth)
        simp only [same, longer]
        cases front with
        | nil => exact ⟨[], c :: last, rfl, rfl⟩
        | cons first front => exact ⟨(c :: first) :: front, last, rfl, rfl⟩

/-- Blanks behind a list of groupings change nothing. -/
theorem ofList_append_blanks (blank : ∀ c ∈ blanks, isBlank c = true) (text : Text) :
    ofList (text ++ blanks) = ofList text := by
  obtain ⟨front, last, same, longer⟩ := items_append_blanks blank false 0 text
  simp only [ofList, same, longer, List.map_append, List.map_cons, Text.trim_append_blanks blank]

theorem ofList_trimEnd (text : Text) : ofList text.trimEnd = ofList text := by
  obtain ⟨blanks, whole, blank⟩ := Text.exists_trimEnd_append text
  calc ofList text.trimEnd
      = ofList (text.trimEnd ++ blanks) := (ofList_append_blanks blank _).symm
    _ = ofList text := by rw [← whole]

end Grouping

namespace Outline

open Separator (orderBy groupBy)

variable {blanks : Text} {c : Char}

/-- A blank behind the one that was added at the start of the head changes nothing. -/
theorem ofHead_cons_blank (blank : isBlank c = true) (rest : Text) (groupings : List Grouping) :
    ofHead (' ' :: c :: rest) groupings = ofHead (' ' :: rest) groupings := by
  have added : isBlank ' ' = true := rfl
  have start (text : Text) : Text.trim (' ' :: c :: text) = Text.trim (' ' :: text) := by
    rw [Text.trim_cons_blank added, Text.trim_cons_blank blank, Text.trim_cons_blank added]
  rcases orderBy.cut?_cons_blank added blank rest with ⟨behind, uncut, cut⟩ | ⟨uncut, cut⟩
  · rw [ofHead, ofHead, uncut, cut]
    rfl
  · rw [ofHead, ofHead, uncut, cut]
    cases orderBy.cut? rest <;> simp only [Option.map_none, Option.map_some, start]

/-- A blank in front of a query changes nothing. -/
theorem ofQuery_cons_blank (blank : isBlank c = true) (query : Text) :
    ofQuery (c :: query) = ofQuery query := by
  have added : isBlank ' ' = true := rfl
  rw [ofQuery, ofQuery, List.cons_append]
  rcases groupBy.cut?_cons_blank added blank (query ++ [' ']) with
    ⟨behind, uncut, cut⟩ | ⟨uncut, cut⟩
  · simp only [uncut, cut]
    rfl
  · simp only [uncut, cut]
    cases groupBy.cut? (query ++ [' ']) with
    | none => exact ofHead_cons_blank blank _ _
    | some found => exact ofHead_cons_blank blank _ _

/-- Blanks in front of the one that was added at the end of the head change nothing. -/
theorem ofHead_append_blanks (blank : ∀ c ∈ blanks, isBlank c = true) (text : Text)
    (groupings : List Grouping) :
    ofHead (text ++ (blanks ++ [' '])) groupings = ofHead (text ++ [' ']) groupings := by
  have cut := orderBy.cut?_append_blanks blank text
  rw [ofHead, ofHead]
  cases longer : orderBy.cut? (text ++ (blanks ++ [' '])) with
  | none =>
      rw [longer, Option.map_none, eq_comm, Option.map_eq_none_iff] at cut
      rw [cut, ← List.append_assoc, Text.trim_append_space, Text.trim_append_blanks blank,
        Text.trim_append_space]
  | some found =>
      obtain ⟨front, behind⟩ := found
      rw [longer, Option.map_some, eq_comm, Option.map_eq_some_iff] at cut
      obtain ⟨⟨_, shorter⟩, cut, same⟩ := cut
      obtain ⟨rfl, trimmed⟩ := Prod.mk.inj same
      rw [cut]
      simp only [id, ← Text.trim_trimEnd shorter, ← Text.trim_trimEnd behind, trimmed]

/-- Blanks behind a query change nothing. -/
theorem ofQuery_append_blanks (blank : ∀ c ∈ blanks, isBlank c = true) (query : Text) :
    ofQuery (query ++ blanks) = ofQuery query := by
  have cut := groupBy.cut?_append_blanks blank (' ' :: query)
  have head (groupings : List Grouping) := ofHead_append_blanks blank (' ' :: query) groupings
  rw [List.cons_append, List.cons_append] at cut head
  rw [ofQuery, ofQuery, List.append_assoc]
  cases longer : groupBy.cut? (' ' :: (query ++ (blanks ++ [' ']))) with
  | none =>
      rw [longer, Option.map_none, eq_comm, Option.map_eq_none_iff] at cut
      simp only [cut, head]
  | some found =>
      obtain ⟨front, behind⟩ := found
      rw [longer, Option.map_some, eq_comm, Option.map_eq_some_iff] at cut
      obtain ⟨⟨_, shorter⟩, cut, same⟩ := cut
      obtain ⟨rfl, trimmed⟩ := Prod.mk.inj same
      simp only [cut, id, ← Grouping.ofList_trimEnd shorter,
        ← Grouping.ofList_trimEnd behind, trimmed]

/-- Blanks around a query change nothing. -/
theorem ofQuery_of_blanks {front behind : Text} (front_blank : ∀ c ∈ front, isBlank c = true)
    (behind_blank : ∀ c ∈ behind, isBlank c = true) (query : Text) :
    ofQuery (front ++ (query ++ behind)) = ofQuery query := by
  induction front with
  | nil => exact ofQuery_append_blanks behind_blank query
  | cons c front ih =>
      rw [List.cons_append, ofQuery_cons_blank (front_blank c List.mem_cons_self)]
      exact ih fun d member => front_blank d (List.mem_cons_of_mem c member)

end Outline

namespace Descriptor

theorem compile_trim (query : Text) : compile query.trim = compile query := by
  obtain ⟨front, behind, whole, front_blank, behind_blank⟩ := Text.exists_append_trim_append query
  have same := Outline.ofQuery_of_blanks front_blank behind_blank query.trim
  rw [← whole] at same
  rw [compile, compile, same]

/-- **Blanks around a query change nothing**: what it is compiled to, or why it is refused and
where. So the queries of a file are compiled as the lines on which they stand. -/
theorem compile_of_blanks :
    (∀ front query behind : Text, (∀ c ∈ front, isBlank c = true) →
      (∀ c ∈ behind, isBlank c = true) → compile (front ++ (query ++ behind)) = compile query) ∧
    ∀ file : Text, ∀ query ∈ Command.queryLines file, ∃ index line,
      file.lines[index]? = some line ∧ query.line = index + 1 ∧ query.source = line.trim ∧
        compile query.source = compile line := by
  constructor
  · intro front query behind front_blank behind_blank
    rw [compile, compile, Outline.ofQuery_of_blanks front_blank behind_blank]
  · intro file query listed
    obtain ⟨index, line, found, _, rfl⟩ := Command.mem_queryLines_iff.mp listed
    exact ⟨index, line, found, rfl, rfl, compile_trim line⟩

/-- The separators at the ends of a query take their blanks from those around it. -/
theorem compile_of_blanks_separators :
    compile ("\t\u3000".toList ++ ("ORDER BY #A\x7bb\x7d GROUP BY".toList ++ "\r\n ".toList)) =
        compile "ORDER BY #A\x7bb\x7d GROUP BY".toList ∧
      ∃ index line, (Text.lines "// a\n\t#b ORDER BY\r\n".toList)[index]? = some line ∧
        2 = index + 1 ∧ "#b ORDER BY".toList = line.trim ∧
          compile "#b ORDER BY".toList = compile line := by
  have front_blank : "\t\u3000".toList.all isBlank = true := by decide
  have behind_blank : "\r\n ".toList.all isBlank = true := by decide
  exact ⟨compile_of_blanks.1 _ _ _ (List.all_eq_true.mp front_blank)
      (List.all_eq_true.mp behind_blank),
    compile_of_blanks.2 "// a\n\t#b ORDER BY\r\n".toList ⟨2, "#b ORDER BY".toList⟩
      (by decide +kernel)⟩

end Descriptor

end NoteQuery
