import NoteQuery.Proofs.Query.Blanks
import NoteQuery.Proofs.Query.Outline
import NoteQuery.Proofs.Query.Positions
import NoteQuery.Proofs.Reference.TwoSpellings

/-! # A tag in every clause

A tag with a data filter is compiled to the same text and the same record when it is the filter, the
order or the grouping of a query, except that a comma in the data filter cuts the grouping in two
unless it stands in parentheses: then the data filter stays open
(`Descriptor.compile_sole_tag`).
-/

namespace NoteQuery

open Delimiters (braces)

namespace Grouping

/-- A place is in parentheses when some text directly in front of it opens more of them than it
closes. So a closing parenthesis without an open one does not count. -/
def InParentheses (front : Text) : Prop :=
  ∃ inner, inner <:+ front ∧ inner.count ')' < inner.count '('

instance (front : Text) : Decidable (InParentheses front) :=
  decidable_of_iff (∃ inner ∈ front.tails, inner.count ')' < inner.count '(') <|
    exists_congr fun inner => and_congr_left' (List.mem_tails inner front)

/-- Every comma of a text stands in parentheses. -/
def KeepsCommas (text : Text) : Prop :=
  ∀ front behind, text = front ++ ',' :: behind → InParentheses front

instance (text : Text) : Decidable (KeepsCommas text) :=
  decidable_of_iff (∀ front ∈ text.inits, front ++ [','] <+: text → InParentheses front) <| by
    constructor
    · rintro keeps front behind rfl
      exact keeps front ((List.mem_inits _ _).mpr (List.prefix_append _ _)) ⟨behind, by simp⟩
    · rintro keeps front _ ⟨behind, whole⟩
      exact keeps front behind (by rw [← whole]; simp)

variable {text front behind : Text} {count : Nat}

/-- A suffix of a text with one more character is empty, or ends with this character. -/
theorem exists_suffix_concat_iff {c : Char} {holds : Text → Prop} :
    (∃ inner, inner <:+ front ++ [c] ∧ holds inner) ↔
      holds [] ∨ ∃ inner, inner <:+ front ∧ holds (inner ++ [c]) := by
  constructor
  · rintro ⟨inner, suffix, held⟩
    rcases List.suffix_concat_iff.mp suffix with rfl | ⟨shorter, rfl, within⟩
    · exact .inl held
    · exact .inr ⟨shorter, within, held⟩
  · rintro (held | ⟨inner, suffix, held⟩)
    · exact ⟨[], List.nil_suffix, held⟩
    · exact ⟨inner ++ [c], List.suffix_concat_iff.mpr (.inr ⟨inner, rfl, suffix⟩), held⟩

/-- How many parentheses are open at a place is told by the texts directly in front of it. -/
theorem lt_foldl_openBehind_iff :
    count < front.foldl openBehind 0 ↔
      ∃ inner, inner <:+ front ∧ inner.count ')' + count < inner.count '(' := by
  induction front using List.reverseRecOn generalizing count with
  | nil => simp
  | append_singleton front c ih =>
      rw [List.foldl_append, List.foldl_cons, List.foldl_nil, openBehind,
        exists_suffix_concat_iff]
      simp only [List.count_nil, Nat.zero_add, Nat.not_lt_zero, false_or, List.count_append]
      by_cases opening : c = '('
      · subst opening
        rw [if_pos rfl]
        cases count with
        | zero => exact iff_of_true (Nat.succ_pos _) ⟨[], List.nil_suffix, by simp⟩
        | succ count =>
            rw [Nat.add_lt_add_iff_right, ih]
            refine exists_congr fun inner => and_congr_right fun _ => ?_
            simp only [List.count_singleton, Char.reduceBEq, ↓reduceIte, Bool.false_eq_true]
            omega
      · by_cases closing : c = ')'
        · subst closing
          rw [if_neg opening, if_pos rfl, Nat.lt_sub_iff_add_lt, ih]
          refine exists_congr fun inner => and_congr_right fun _ => ?_
          simp only [List.count_singleton, Char.reduceBEq, ↓reduceIte, Bool.false_eq_true]
          omega
        · rw [if_neg opening, if_neg closing, ih]
          simp [opening, closing]

theorem inParentheses_iff : InParentheses front ↔ 0 < front.foldl openBehind 0 := by
  rw [lt_foldl_openBehind_iff, InParentheses]
  rfl

/-- A text that keeps its commas is one item. -/
theorem items_of_keepsCommas (unquoted : '\'' ∉ text) (keeps : KeepsCommas text) :
    items false 0 text = [text] := by
  have joined : ∀ front behind, text = front ++ ',' :: behind → 0 < front.foldl openBehind 0 :=
    fun front behind same => inParentheses_iff.mp (keeps front behind same)
  exact items_of_uncut (uncut_of_unquoted unquoted joined)

/-- A text is cut at the first comma in front of which no parenthesis is open. -/
theorem exists_items_eq_cons {depth : Nat} (unquoted : '\'' ∉ text)
    (cut : ∃ front behind, text = front ++ ',' :: behind ∧ front.foldl openBehind depth = 0) :
    ∃ front behind, text = front ++ ',' :: behind ∧
      items false depth text = front :: items false 0 behind := by
  induction text generalizing depth with
  | nil =>
      obtain ⟨front, behind, same, _⟩ := cut
      simp at same
  | cons c text ih =>
      rw [List.mem_cons, not_or] at unquoted
      by_cases here : c = ',' ∧ depth = 0
      · obtain ⟨rfl, rfl⟩ := here
        exact ⟨[], text, rfl, items_comma⟩
      · have joined : c = ',' → false = true ∨ 0 < depth := fun comma =>
          .inr (Nat.pos_of_ne_zero fun closed => here ⟨comma, closed⟩)
        have later : ∃ front behind, text = front ++ ',' :: behind ∧
            front.foldl openBehind (openBehind depth c) = 0 := by
          obtain ⟨front, behind, same, closed⟩ := cut
          cases front with
          | nil => exact (here ⟨(List.cons.inj same).1, closed⟩).elim
          | cons d front =>
              obtain ⟨rfl, rest⟩ := List.cons.inj same
              exact ⟨front, behind, rest, closed⟩
        obtain ⟨front, behind, rfl, items⟩ := ih unquoted.2 later
        refine ⟨c :: front, behind, rfl, ?_⟩
        rw [items_cons joined, if_neg (Ne.symm unquoted.1), if_neg Bool.false_ne_true, ← openBehind,
          items]
        rfl

/-- A text that does not keep its commas is cut at the first of them that is not in parentheses. -/
theorem exists_items_of_not_keepsCommas (unquoted : '\'' ∉ text) (cut : ¬ KeepsCommas text) :
    ∃ front behind, text = front ++ ',' :: behind ∧
      items false 0 text = front :: items false 0 behind := by
  simp only [KeepsCommas, not_forall, inParentheses_iff, Nat.not_lt, Nat.le_zero] at cut
  obtain ⟨front, behind, same, closed⟩ := cut
  exact exists_items_eq_cons unquoted ⟨front, behind, same, closed⟩

/-- A text that keeps its commas is the only grouping. -/
theorem ofList_of_keepsCommas (filled : text ≠ []) (trimmed : text.trim = text)
    (unquoted : '\'' ∉ text) (keeps : KeepsCommas text) : ofList text = [⟨text, none⟩] := by
  rw [ofList, items_of_keepsCommas unquoted keeps, List.map_singleton, trimmed,
    List.filter_cons_of_pos (by simpa using filled), List.filter_nil, List.map_singleton, ofItem,
    cutLabel?_of_not_mem unquoted]

/-- The first item is the first grouping. -/
theorem ofList_of_items {whole : Text} {more : List Text} (unquoted : '\'' ∉ text)
    (filled : text.trim ≠ []) (cut : items false 0 whole = text :: more) :
    ∃ groupings, ofList whole = ⟨text.trim, none⟩ :: groupings := by
  have inner : '\'' ∉ text.trim := fun member => unquoted (text.trim_infix.subset member)
  rw [ofList, cut, List.map_cons, List.filter_cons_of_pos (by simpa using filled), List.map_cons,
    ofItem, cutLabel?_of_not_mem inner]
  exact ⟨_, rfl⟩

end Grouping

/-- The kinds of clauses. -/
inductive ClauseKind where
  | filter
  | order
  | grouping
  deriving DecidableEq, Repr

namespace ClauseKind

/-- The query that consists of one clause. -/
def query : ClauseKind → Text → Text
  | filter, clause => clause
  | order, clause => Separator.orderBy.letters ++ ' ' :: clause
  | grouping, clause => Separator.groupBy.letters ++ ' ' :: clause

/-- The outline that consists of one clause. -/
def outline : ClauseKind → Text → Outline
  | filter, clause => { filter := some clause, order := none, groupings := [] }
  | order, clause => { filter := none, order := some clause, groupings := [] }
  | grouping, clause => { filter := none, order := none, groupings := [⟨clause, none⟩] }

variable {clause : Text}

/-- A clause without separators is the filter of the query that consists of it. -/
theorem ofQuery_filter (filled : clause ≠ []) (trimmed : clause.trim = clause)
    (free : ∀ separator : Separator, ¬ separator.Occurs (' ' :: (clause ++ [' ']))) :
    Outline.ofQuery (filter.query clause) = filter.outline clause := by
  have added : isBlank ' ' = true := rfl
  have padded : Text.trim (' ' :: (clause ++ [' '])) = clause := by
    rw [Text.trim_cons_blank added, Text.trim_append_space, trimmed]
  have uncut (separator : Separator) := Separator.cut?_eq_none_iff.mpr (free separator)
  rw [query, Outline.ofQuery]
  simp only [uncut]
  rw [Outline.ofHead, uncut]
  dsimp only
  rw [padded, if_neg (by simpa using filled), outline]

/-- A clause without a `GROUP BY` is the order of the query that consists of it. -/
theorem ofQuery_order (trimmed : clause.trim = clause)
    (free : ¬ Separator.groupBy.Occurs (' ' :: (clause ++ [' ']))) :
    Outline.ofQuery (order.query clause) = order.outline clause := by
  have whole : ' ' :: (order.query clause ++ [' ']) =
      ' ' :: (Separator.orderBy.letters ++ ' ' :: (clause ++ [' '])) := by
    rw [query, List.append_assoc, List.cons_append]
  have uncut : Separator.groupBy.cut? (' ' :: (order.query clause ++ [' '])) = none := by
    rw [whole, Outline.cut?_groupBy_orderBy, Separator.cut?_eq_none_iff.mpr free, Option.map_none]
  have cut : Separator.orderBy.cut? (' ' :: (order.query clause ++ [' '])) =
      some ([], clause ++ [' ']) := by
    rw [whole, Separator.cut?_letters]
  have behind : Text.trim (clause ++ [' ']) = clause := by
    rw [Text.trim_append_space, trimmed]
  rw [Outline.ofQuery]
  simp only [uncut]
  rw [Outline.ofHead, cut]
  dsimp only
  rw [behind]
  rfl

/-- What is grouped by is read from the clause alone. -/
theorem ofQuery_grouping (clause : Text) :
    Outline.ofQuery (grouping.query clause) =
      { filter := none, order := none, groupings := Grouping.ofList clause } := by
  have whole : ' ' :: (grouping.query clause ++ [' ']) =
      ' ' :: (Separator.groupBy.letters ++ ' ' :: (clause ++ [' '])) := by
    rw [query, List.append_assoc, List.cons_append]
  have cut : Separator.groupBy.cut? (' ' :: (grouping.query clause ++ [' '])) =
      some ([], clause ++ [' ']) := by
    rw [whole, Separator.cut?_letters]
  have added : ∀ c ∈ [' '], isBlank c = true := List.forall_mem_singleton.mpr rfl
  rw [Outline.ofQuery]
  simp only [cut, Grouping.ofList_append_blanks added]
  rfl

end ClauseKind

/-- No attribute is extracted from a text without marks. -/
theorem AttributeReference.extract_of_unmarked {text : Text}
    (unmarked : ∀ c ∈ text, isMark c = false) (known : List AttributeReference) :
    extract text known = ⟨.ok text, known⟩ := by
  have scanned (spelling : Spelling) :
      phase.scan spelling text = ⟨text.map .plain, none⟩ := scan_of_unmarked spelling unmarked
  rw [← extractor_phase, Phase.extractor_of_unread scanned]

namespace TagReference

variable {marks body inside : Text} {modifiers : TagModifiers} {name : QualifiedName}

/-- A plain tag with a data filter, as it is spelled in a query. -/
def spelledWith (marks : Text) (name : QualifiedName) (body : Text) : Text :=
  marks ++ (name.joined ++ '{' :: (body ++ ['}']))

/-- **A plain tag with a data filter is extracted**: it is replaced by a placeholder, behind which
its braces stay when they look like one. -/
theorem exists_extract_spelledWith (marked : TagModifiers.Marks marks modifiers)
    (fits : name.Fits .plain) (balanced : braces.Balanced body) :
    ∃ text tag, extract (spelledWith marks name body) [] = ⟨.ok text, [tag]⟩ ∧
      ∀ c ∈ text, isMark c = false := by
  have extracted : extract (spelledWith marks name body) [] =
      ⟨.ok (Placeholder.tag.numbered 0 ++ leftBehind body), [ofSpelled modifiers name body]⟩ :=
    extract_spelledIn marked fits balanced (by rintro ⟨⟩) []
  exact ⟨_, _, extracted, List.forall_mem_append.mpr
    ⟨fun _ => Placeholder.isMark_of_mem_numbered, unmarked_leftBehind balanced⟩⟩

/-- The data filter of a plain tag that is cut off stays open. -/
theorem extract_spelledWith_cut (marked : TagModifiers.Marks marks modifiers)
    (fits : name.Fits .plain) (matched : braces.Matched 0 inside) :
    (extract (marks ++ (name.joined ++ '{' :: inside)) []).clause =
      .error ⟨.dataFilter, name.name, (marks ++ name.joined).utf8Size, .clause⟩ := by
  have read : read? .plain (marks ++ (name.joined ++ '{' :: inside)) =
      some ({ name, modifiers with }, '{' :: inside) :=
    read?_of_marks marked fits fun c first => (Option.some.inj first).symm
  have position : (marks ++ (name.joined ++ '{' :: inside)).bytesBefore ('{' :: inside) =
      (marks ++ name.joined).utf8Size := by
    rw [← List.append_assoc, Text.bytesBefore_append]
  have failed : (scan .plain (marks ++ (name.joined ++ '{' :: inside))).failure =
      some ⟨.dataFilter, name.name, (marks ++ name.joined).utf8Size, .clause⟩ :=
    failure_scan_eq_some_iff.mpr ⟨_, inside,
      ⟨_, .here _, owning?_start (outside_of_read? read), read⟩, matched, by rw [position]⟩
  rw [extract, extractSpelling, ← scan, Extraction.andThen, Extraction.ofScan, failed]

theorem spelledWith_ne_nil (marks : Text) (name : QualifiedName) (body : Text) :
    spelledWith marks name body ≠ [] := by
  simp [spelledWith]

/-- A tag has no blanks at its ends. -/
theorem trim_spelledWith (marked : TagModifiers.Marks marks modifiers) :
    (spelledWith marks name body).trim = spelledWith marks name body := by
  obtain ⟨c, rest, rfl, sign⟩ := marked.eq_cons
  refine Text.trim_eq_self_iff.mpr ⟨?_, ?_⟩
  · rintro d ⟨⟩
    rcases sign with rfl | rfl <;> rfl
  · intro d last
    have whole : spelledWith (c :: rest) name body =
        ((c :: rest) ++ (name.joined ++ '{' :: body)) ++ ['}'] := by
      simp [spelledWith]
    rw [whole, List.getLast?_concat, Option.mem_def, Option.some.injEq] at last
    rw [← last]
    rfl

/-- Trimming keeps what stands in front of the data filter, and its brace. -/
theorem exists_trim_cut (marked : TagModifiers.Marks marks modifiers) (name : QualifiedName)
    (inside : Text) :
    ∃ kept, kept <+: inside ∧ Text.trim (marks ++ (name.joined ++ '{' :: inside)) =
      marks ++ (name.joined ++ '{' :: kept) := by
  have spread (behind : Text) : marks ++ (name.joined ++ '{' :: behind) =
      (marks ++ name.joined) ++ ['{'] ++ behind := by simp
  simp only [spread]
  have start : Text.trimStart ((marks ++ name.joined) ++ ['{'] ++ inside) =
      (marks ++ name.joined) ++ ['{'] ++ inside := by
    obtain ⟨c, rest, rfl, sign⟩ := marked.eq_cons
    refine Text.trimStart_eq_self_iff.mpr ?_
    rintro d ⟨⟩
    rcases sign with rfl | rfl <;> rfl
  rw [Text.trim, start]
  obtain ⟨blanks, whole, blank⟩ :=
    Text.exists_trimEnd_append ((marks ++ name.joined) ++ ['{'] ++ inside)
  rcases List.append_eq_append_iff.mp whole with ⟨kept, trimmed, same⟩ | ⟨cut, opened, same⟩
  · exact ⟨kept, ⟨blanks, same.symm⟩, trimmed⟩
  · -- The brace is no blank, so nothing in front of it is trimmed.
    cases cut using List.reverseRecOn with
    | nil => exact ⟨[], List.nil_prefix, by simpa using opened.symm⟩
    | append_singleton cut c _ =>
        rw [← List.append_assoc] at opened
        have brace := (List.cons.inj (List.append_inj' opened rfl).2).1
        have unblank := blank c (by simp [same])
        rw [← brace] at unblank
        cases unblank

/-- A tag that does not keep its commas is cut in its data filter. -/
theorem exists_ofList_spelledWith (marked : TagModifiers.Marks marks modifiers)
    (fits : name.Fits .plain) (unquoted : '\'' ∉ spelledWith marks name body)
    (cut : ¬ Grouping.KeepsCommas (spelledWith marks name body)) :
    ∃ inside more, inside <+: body ∧ Grouping.ofList (spelledWith marks name body) =
      ⟨marks ++ (name.joined ++ '{' :: inside), none⟩ :: more := by
  obtain ⟨front, behind, whole, items⟩ := Grouping.exists_items_of_not_keepsCommas unquoted cut
  obtain ⟨inside, begun, rfl⟩ : ∃ inside, inside <+: body ∧
      front = marks ++ (name.joined ++ '{' :: inside) := by
    have split : ((marks ++ name.joined) ++ ['{']) ++ (body ++ ['}']) = front ++ ',' :: behind := by
      rw [← whole]
      simp [spelledWith]
    rcases List.append_eq_append_iff.mp split with ⟨inside, rfl, same⟩ | ⟨cut, opened, same⟩
    · refine ⟨inside, ?_, by simp⟩
      have longer := congrArg List.length same
      simp only [List.length_append, List.length_cons, List.length_nil] at longer
      refine List.prefix_of_prefix_length_le ⟨_, same.symm⟩ (List.prefix_append body ['}']) ?_
      omega
    · -- No comma stands in front of the data filter.
      cases cut with
      | nil => exact ⟨[], List.nil_prefix, by simpa using opened.symm⟩
      | cons c cut =>
          have comma : c = ',' := (List.cons.inj same).1.symm
          have member : ',' ∈ (marks ++ name.joined) ++ ['{'] := by
            rw [opened, comma]
            simp
          rcases List.mem_append.mp member with early | brace
          · have named : ',' ∈ marks ++ name.spelled .plain := early
            cases isTagCharacter_of_mem marked fits named
          · cases List.mem_singleton.mp brace
  obtain ⟨kept, shorter, trimmed⟩ := exists_trim_cut marked name inside
  have filled : Text.trim (marks ++ (name.joined ++ '{' :: inside)) ≠ [] := by
    rw [trimmed]
    simp
  have unquoted' : '\'' ∉ marks ++ (name.joined ++ '{' :: inside) := fun member =>
    unquoted (whole ▸ List.mem_append_left _ member)
  obtain ⟨more, listed⟩ := Grouping.ofList_of_items unquoted' filled items
  rw [trimmed] at listed
  exact ⟨kept, more, shorter.trans begun, listed⟩

end TagReference

namespace Descriptor

variable {query clause tagged text : Text} {tagReferences : List TagReference}
  {attributeReferences : List AttributeReference} {error : QueryError}

/-- An outline that consists of one clause is rewritten as the clause is. -/
theorem onOutline_sole {Record : Type} {extractor : Extractor Record} {records : List Record}
    (kind : ClauseKind) (extracted : extractor clause [] = ⟨.ok text, records⟩) :
    extractor.onOutline (kind.outline clause) = .ok (kind.outline text, records) := by
  cases kind <;>
    simp only [ClauseKind.outline, Extractor.onOutline, Extractor.onOption, Extractor.onGroupings,
      Extractor.onClause, extracted, bind, Except.bind, pure, Except.pure]

/-- A query that consists of one clause is compiled as the clause is. -/
theorem compile_sole {kind : ClauseKind} (outlined : Outline.ofQuery query = kind.outline clause)
    (tags : TagReference.extract clause [] = ⟨.ok tagged, tagReferences⟩)
    (attributes : AttributeReference.extract tagged [] = ⟨.ok text, attributeReferences⟩) :
    compile query = .ok { kind.outline text with tagReferences, attributeReferences } := by
  simp only [compile, outlined, onOutline_sole kind tags, bind, Except.bind,
    onOutline_sole kind attributes]
  rfl

/-- A query is refused when the tags of its first grouping cannot be extracted. -/
theorem compile_grouping_refused {grouping : Grouping} {more : List Grouping}
    (outlined : Outline.ofQuery query =
      { filter := none, order := none, groupings := grouping :: more })
    (failed : (TagReference.extract grouping.criteria []).clause = .error error) :
    compile query = .error (error.inPart (.grouping 1)) := by
  cases extracted : TagReference.extract grouping.criteria [] with
  | mk outcome records =>
      rw [extracted] at failed
      cases failed
      simp only [compile, outlined, Extractor.onOutline, Extractor.onOption, Extractor.onGroupings,
        Extractor.onClause, extracted, bind, Except.bind]

variable {marks body : Text} {modifiers : TagModifiers} {name : QualifiedName}

/-- **A tag with a data filter means the same in every clause** unless the commas of the data filter
cut a grouping: the order and the grouping are compiled to the text and the record that the filter
is, the grouping exactly when every comma stands in parentheses. Otherwise the data filter is cut
off at the first comma that does not, and the grouping is refused. -/
theorem compile_sole_tag (marked : TagModifiers.Marks marks modifiers) (fits : name.Fits .plain)
    (balanced : braces.Balanced body) (unquoted : '\'' ∉ TagReference.spelledWith marks name body)
    (free : ∀ separator : Separator,
      ¬ separator.Occurs (' ' :: (TagReference.spelledWith marks name body ++ [' ']))) :
    ∃ text tag,
      (∀ kind : ClauseKind,
        compile (kind.query (TagReference.spelledWith marks name body)) =
            .ok { kind.outline text with tagReferences := [tag], attributeReferences := [] } ↔
          (kind = .grouping →
            Grouping.KeepsCommas (TagReference.spelledWith marks name body))) ∧
      (¬ Grouping.KeepsCommas (TagReference.spelledWith marks name body) →
        compile (ClauseKind.grouping.query (TagReference.spelledWith marks name body)) =
          .error ⟨.dataFilter, name.name, (marks ++ name.joined).utf8Size, .grouping 1⟩) := by
  obtain ⟨text, tag, extracted, unmarked⟩ :=
    TagReference.exists_extract_spelledWith marked fits balanced
  have attributes := AttributeReference.extract_of_unmarked unmarked []
  have filled := TagReference.spelledWith_ne_nil marks name body
  have trimmed : (TagReference.spelledWith marks name body).trim =
      TagReference.spelledWith marks name body := TagReference.trim_spelledWith marked
  have refused : ¬ Grouping.KeepsCommas (TagReference.spelledWith marks name body) →
      compile (ClauseKind.grouping.query (TagReference.spelledWith marks name body)) =
        .error ⟨.dataFilter, name.name, (marks ++ name.joined).utf8Size, .grouping 1⟩ := by
    intro cut
    obtain ⟨inside, more, first, listed⟩ := TagReference.exists_ofList_spelledWith marked fits
      unquoted cut
    have matched : braces.Matched 0 inside := fun start begun =>
      balanced.matched start (begun.trans first)
    have failed := TagReference.extract_spelledWith_cut marked fits matched
    have outlined := ClauseKind.ofQuery_grouping (TagReference.spelledWith marks name body)
    rw [listed] at outlined
    exact compile_grouping_refused outlined failed
  refine ⟨text, tag, fun kind => ⟨?_, ?_⟩, refused⟩
  · rintro compiled rfl
    by_contra cut
    rw [refused cut] at compiled
    cases compiled
  · intro keeps
    refine compile_sole ?_ extracted attributes
    cases kind with
    | filter => exact ClauseKind.ofQuery_filter filled trimmed free
    | order => exact ClauseKind.ofQuery_order trimmed (free .groupBy)
    | grouping =>
        rw [ClauseKind.ofQuery_grouping,
          Grouping.ofList_of_keepsCommas filled trimmed unquoted (keeps rfl)]
        rfl

/-- A comma in parentheses, with braces around it, leaves the data filter whole. -/
theorem compile_sole_tag_enclosed :
    ∃ text tag, ∀ kind : ClauseKind,
      compile (kind.query "#A\x7bf(\x7bx, y\x7d)\x7d".toList) =
        .ok { kind.outline text with tagReferences := [tag], attributeReferences := [] } := by
  have marked : TagModifiers.Marks ['#'] ⟨1, true, false⟩ := .hashes false 0 false false
  have fits : (⟨none, ['A']⟩ : QualifiedName).Fits .plain :=
    QualifiedName.fits_none_iff.mpr ⟨List.cons_ne_nil _ _, List.forall_mem_singleton.mpr rfl⟩
  have balanced : braces.Balanced "f(\x7bx, y\x7d)".toList := by decide +kernel
  obtain ⟨text, tag, same, _⟩ := compile_sole_tag marked fits balanced (by decide +kernel)
    (by rintro (_ | _) <;> decide +kernel)
  exact ⟨text, tag, fun kind => (same kind).mpr fun _ => by decide +kernel⟩

/-- A comma in the data filter of a tag cuts a grouping, and only that. -/
theorem refused_of_comma :
    braces.Balanced "x, y".toList ∧ '\'' ∉ "#A\x7bx, y\x7d".toList ∧
      (∀ separator : Separator, ¬ separator.Occurs (" #A\x7bx, y\x7d ".toList)) ∧
      (compile "#A\x7bx, y\x7d".toList).isOk ∧ (compile "ORDER BY #A\x7bx, y\x7d".toList).isOk ∧
      compile "GROUP BY #A\x7bx, y\x7d".toList =
        .error ⟨.dataFilter, "A".toList, 2, .grouping 1⟩ := by
  refine ⟨by decide +kernel, by decide +kernel, ?_, by decide +kernel, by decide +kernel,
    by decide +kernel⟩
  rintro (_ | _) <;> decide +kernel

end Descriptor

end NoteQuery
