import NoteQuery.Query.Listing
import NoteQuery.Proofs.Query.EveryClause

/-! # Groupings in a listing

The groupings of any query are read back from the lines in which a listing shows them
(`Outline.ofQuery_groupTexts`). A grouping may be written otherwise than in the query, but with the
same quotes, parentheses and commas (`Grouping.counted_written_ofItem`), and these alone tell where
a list is cut (`Grouping.uncut_counted_iff`). The first label of an item is the first one again in
what is written (`Grouping.ofItem_written_ofItem`).
-/

namespace NoteQuery

namespace Grouping

variable {place : Place} {text rest item criteria name : Text} {c : Char}

/-- A text is cut at the commas that separate items, and at no others. -/
theorem exists_items_listed (place : Place) (text : Text) :
    ∃ first more, items place.quoted place.depth text = first :: more ∧ Uncut place first ∧
      (more = [] ∨ place.after first = .outer) ∧ Listed more := by
  induction text generalizing place with
  | nil => exact ⟨[], [], rfl, by simp [Uncut], .inl rfl, .nil⟩
  | cons c text ih =>
      by_cases separates : c = ',' ∧ place = .outer
      · obtain ⟨rfl, rfl⟩ := separates
        obtain ⟨first, more, same, uncut, ends, listed⟩ := ih .outer
        refine ⟨[], first :: more, ?_, by simp [Uncut], .inr rfl, .cons uncut ends listed⟩
        rw [← same]
        exact items_comma
      · have joined : c = ',' → place ≠ .outer := fun comma outer => separates ⟨comma, outer⟩
        obtain ⟨first, more, same, uncut, ends, listed⟩ := ih (place.behind c)
        refine ⟨c :: first, more, ?_, uncut_cons_iff.mpr ⟨joined, uncut⟩, ends, listed⟩
        rw [items_cons_of_uncut joined, same, List.modifyHead_cons]

/-- The items of a list are one reading of it. -/
theorem listed_items (text : Text) : Listed (items false 0 text) := by
  obtain ⟨first, more, same, uncut, ends, listed⟩ := exists_items_listed .outer text
  have start : items false 0 text = first :: more := same
  rw [start]
  exact .cons uncut ends listed

/-! ### What counts in a list -/

/-- The characters that tell where a list is cut. -/
def counts (c : Char) : Bool :=
  c == ',' || c == '\'' || c == '(' || c == ')'

/-- The characters of a text that tell where a list is cut. -/
def counted (text : Text) : Text :=
  text.filter counts

/-- A character that does not count leaves the state of the splitter as it is. -/
theorem behind_of_not_counts (other : counts c = false) : place.behind c = place := by
  simp only [counts, Bool.or_eq_false_iff, beq_eq_false_iff_ne] at other
  obtain ⟨⟨⟨_, quote⟩, opening⟩, closing⟩ := other
  simp [Place.behind, openBehind, quote, opening, closing]

/-- The state behind a text is told by the characters that count. -/
theorem after_counted (place : Place) (text : Text) :
    place.after (counted text) = place.after text := by
  induction text generalizing place with
  | nil => rfl
  | cons c text ih =>
      rw [counted]
      cases counting : counts c with
      | true => rw [List.filter_cons_of_pos counting, after_cons, ← counted, ih, after_cons]
      | false =>
          rw [List.filter_cons_of_neg (by simp [counting]), ← counted, ih, after_cons,
            behind_of_not_counts counting]

/-- Whether a text is cut is told by the characters that count. -/
theorem uncut_counted_iff : Uncut place (counted text) ↔ Uncut place text := by
  induction text generalizing place with
  | nil => rfl
  | cons c text ih =>
      rw [counted]
      cases counting : counts c with
      | true => rw [List.filter_cons_of_pos counting, uncut_cons_iff, ← counted, ih, uncut_cons_iff]
      | false =>
          have other : c ≠ ',' := by
            rintro rfl
            cases counting
          rw [List.filter_cons_of_neg (by simp [counting]), ← counted, ih, uncut_cons_iff,
            behind_of_not_counts counting]
          simp [other]

theorem counted_append (front behind : Text) :
    counted (front ++ behind) = counted front ++ counted behind :=
  List.filter_append front behind

theorem counted_blanks (blank : ∀ c ∈ text, isBlank c = true) : counted text = [] := by
  refine List.filter_eq_nil_iff.mpr fun c member counting => ?_
  have blank := blank c member
  simp only [counts, Bool.or_eq_true, beq_iff_eq] at counting
  rcases counting with ((rfl | rfl) | rfl) | rfl <;> cases blank

/-- Trimming takes away nothing that counts. -/
theorem counted_trim (text : Text) : counted text.trim = counted text := by
  obtain ⟨front, behind, whole, front_blank, behind_blank⟩ := Text.exists_append_trim_append text
  conv_rhs => rw [whole]
  rw [counted_append, counted_append, counted_blanks front_blank, counted_blanks behind_blank,
    List.nil_append, List.append_nil]

theorem counted_labelWord {first second : Char} (word : isLabelWord first second = true) :
    counted [first, second] = [] := by
  have unlettered {c : Char} (counting : counts c = true) :
      (c.toUpper == 'A') = false ∧ (c.toUpper == 'S' || c == 'ſ') = false := by
    simp only [counts, Bool.or_eq_true, beq_iff_eq] at counting
    rcases counting with ((rfl | rfl) | rfl) | rfl <;> decide
  rw [isLabelWord, Bool.and_eq_true] at word
  refine List.filter_eq_nil_iff.mpr fun c member counting => ?_
  obtain ⟨noA, noS⟩ := unlettered counting
  simp only [List.mem_cons, List.not_mem_nil, or_false] at member
  rcases member with rfl | rfl
  · rw [word.1] at noA
    cases noA
  · rw [word.2] at noS
    cases noS

/-! ### The first label -/

/-- The criteria in front of the first label do not end in a blank, which would belong to it. -/
theorem isBlank_of_cutLabel? (cut : cutLabel? item = some (criteria, name)) :
    ∀ c ∈ criteria.getLast?, isBlank c = false := by
  intro c last
  obtain ⟨label, rfl, read, unlabelled⟩ := cutLabel?_eq_some_iff.mp cut
  obtain ⟨shorter, rfl⟩ := List.getLast?_eq_some_iff.mp last
  by_contra blank
  rw [Bool.not_eq_false] at blank
  obtain ⟨before, first, second, between, rfl, _, blanks, word, spaced, blanks'⟩ :=
    label?_eq_some_iff.mp read
  have longer : label? (c :: (before ++
      first :: second :: (between ++ '\'' :: (name ++ ['\''])))) = some name :=
    label?_eq_some_iff.mpr ⟨c :: before, first, second, between, rfl, List.cons_ne_nil c before,
      List.forall_mem_cons.mpr ⟨blank, blanks⟩, word, spaced, blanks'⟩
  have none := unlabelled [c] (List.cons_ne_nil c []) (List.suffix_append shorter [c])
  rw [List.singleton_append, longer] at none
  cases none

/-- In front of a label that is written behind the criteria a label can start only where one starts
in the item: its first quote would be in the criteria, and the item ends in a quote as well. -/
theorem label?_written_eq_none {start label : Text} (read : label? label = some name)
    (filled : ∃ c ∈ start, isBlank c = false) (unlabelled : label? (start ++ label) = none) :
    label? (start ++ (nameOpening ++ '\'' :: (name ++ ['\'']))) = none := by
  by_cases unquoted : '\'' ∉ start
  · exact label?_eq_none unquoted filled
  · obtain ⟨front, quoted, rfl, first⟩ := List.eq_append_cons_of_mem (not_not.mp unquoted)
    rw [Option.eq_none_iff_forall_ne_some]
    intro other found
    obtain ⟨before, one, two, between, whole, filled', blanks, word, spaced, blanks'⟩ :=
      label?_eq_some_iff.mp found
    have unquoted' := quote_notMem_labelOpening blanks word blanks'
    have marked : front ++ '\'' :: (quoted ++ (nameOpening ++ '\'' :: (name ++ ['\'']))) =
        (before ++ one :: two :: between) ++ '\'' :: (other ++ ['\'']) := by
      simpa using whole
    obtain ⟨rfl, _⟩ := Text.eq_of_first_mark marked first unquoted'
    obtain ⟨before', one', two', between', rfl, _⟩ := label?_eq_some_iff.mp read
    have longer : label? (((before ++ one :: two :: between) ++ '\'' :: quoted) ++
        (before' ++ one' :: two' :: (between' ++ '\'' :: (name ++ ['\''])))) =
          some (quoted ++ (before' ++ one' :: two' :: (between' ++ '\'' :: name))) :=
      label?_eq_some_iff.mpr ⟨before, one, two, between, by simp, filled', blanks, word, spaced,
        blanks'⟩
    rw [longer] at unlabelled
    cases unlabelled

/-! ### Items that are written again -/

theorem ofItem_of_cutLabel? (cut : cutLabel? item = some (criteria, name)) :
    ofItem item = ⟨criteria, some name⟩ := by
  rw [ofItem, cut]

theorem ofItem_of_cutLabel?_eq_none (uncut : cutLabel? item = none) :
    ofItem item = ⟨item, none⟩ := by
  rw [ofItem, uncut]

/-- An item is cut in front of the same label when it is written again. -/
theorem ofItem_written_ofItem (item : Text) : ofItem (ofItem item).written = ofItem item := by
  cases cut : cutLabel? item with
  | none =>
      rw [ofItem_of_cutLabel?_eq_none cut]
      exact ofItem_of_cutLabel?_eq_none cut
  | some found =>
      obtain ⟨criteria, name⟩ := found
      obtain ⟨label, _, read, unlabelled⟩ := cutLabel?_eq_some_iff.mp cut
      have ends := isBlank_of_cutLabel? cut
      have again : cutLabel? (⟨criteria, some name⟩ : Grouping).written =
          some (criteria, name) := by
        refine cutLabel?_eq_some_iff.mpr
          ⟨_, written_some criteria name, label?_nameOpening name, ?_⟩
        intro start filled suffix
        exact label?_written_eq_none read (exists_unblank_of_suffix ends filled suffix)
          (unlabelled start filled suffix)
      rw [ofItem_of_cutLabel? cut]
      exact ofItem_of_cutLabel? again

/-- An item that is written again has the same quotes, parentheses and commas. -/
theorem counted_written_ofItem (item : Text) : counted (ofItem item).written = counted item := by
  rw [ofItem]
  cases cut : cutLabel? item with
  | none => rfl
  | some found =>
      obtain ⟨criteria, name⟩ := found
      obtain ⟨label, rfl, read, _⟩ := cutLabel?_eq_some_iff.mp cut
      obtain ⟨before, first, second, between, rfl, _, blank, word, _, blank'⟩ :=
        label?_eq_some_iff.mp read
      have opening : counted nameOpening = [] := by decide
      have spread : before ++ first :: second :: (between ++ '\'' :: (name ++ ['\''])) =
          before ++ ([first, second] ++ (between ++ '\'' :: (name ++ ['\'']))) := by simp
      rw [written_some, spread]
      simp only [counted_append, opening, counted_blanks blank, counted_labelWord word,
        counted_blanks blank', List.nil_append]

/-- An item that is written again has no blanks at its ends. -/
theorem trim_written_ofItem (trimmed : item.trim = item) (filled : item ≠ []) :
    (ofItem item).written.trim = (ofItem item).written := by
  rw [ofItem]
  cases cut : cutLabel? item with
  | none => exact trimmed
  | some found =>
      obtain ⟨criteria, name⟩ := found
      have start := (Text.trim_eq_self_iff.mp trimmed).1
      obtain ⟨label, rfl, read, _⟩ := cutLabel?_eq_some_iff.mp cut
      cases criteria with
      | nil =>
          -- A label starts with a blank.
          obtain ⟨before, _, _, _, rfl, some_blank, blank, _⟩ := label?_eq_some_iff.mp read
          obtain ⟨c, before, rfl⟩ := List.exists_cons_of_ne_nil some_blank
          have unblank : isBlank c = false := start c rfl
          rw [blank c List.mem_cons_self] at unblank
          cases unblank
      | cons c criteria => exact trim_written_some (List.cons_ne_nil c criteria) start

/-- What is written for an item is not empty, if the item is not. -/
theorem written_ofItem_ne_nil (filled : item ≠ []) : (ofItem item).written ≠ [] := by
  rw [ofItem]
  cases cutLabel? item with
  | none => exact filled
  | some found =>
      rw [written_some]
      exact List.append_ne_nil_of_right_ne_nil _ (List.cons_ne_nil _ _)

/-! ### Lists that are written again -/

theorem map_written_ofList (text : Text) :
    (ofList text).map written =
      (((items false 0 text).map Text.trim).filter (!·.isEmpty)).map fun item =>
        (ofItem item).written := by
  rw [ofList, List.map_map]
  rfl

/-- The groupings of a list can be the items of a list. Blank items are left out, and as they hold
no quotes and no parentheses, the next item starts where they did. -/
theorem Listed.map_written {texts : List Text} (listed : Listed texts) :
    Listed (((texts.map Text.trim).filter (!·.isEmpty)).map fun item => (ofItem item).written) := by
  induction listed with
  | nil => exact .nil
  | @cons item more uncut ends _ ih =>
      rw [List.map_cons]
      by_cases blank : item.trim = []
      · rw [List.filter_cons_of_neg (by simp [blank])]
        exact ih
      · have same : counted (ofItem item.trim).written = counted item :=
          (counted_written_ofItem item.trim).trans (counted_trim item)
        rw [List.filter_cons_of_pos (by simpa using blank), List.map_cons]
        refine .cons ?_ ?_ ih
        · rw [← uncut_counted_iff, same, uncut_counted_iff]
          exact uncut
        · rw [← after_counted, same, after_counted]
          exact ends.imp_left fun last => by rw [last]; rfl

/-- A grouping that was read comes from an item without blanks at its ends. -/
theorem exists_item_of_mem_ofList {grouping : Grouping} (member : grouping ∈ ofList text) :
    ∃ item : Text, item ≠ [] ∧ item.trim = item ∧ ofItem item = grouping := by
  simp only [ofList, List.mem_map, List.mem_filter] at member
  obtain ⟨_, ⟨⟨item, _, rfl⟩, filled⟩, rfl⟩ := member
  exact ⟨item.trim, by simpa using filled, item.trim_trim, rfl⟩

/-- **Groupings that were read are read back** from what is written for them. -/
theorem ofList_writtenList_ofList (text : Text) :
    ofList (writtenList (ofList text)) = ofList text := by
  by_cases empty : ofList text = []
  · rw [empty]
    rfl
  have listed := (listed_items text).map_written
  rw [← map_written_ofList] at listed
  have read : ofList (writtenList (ofList text) ++ []) = ofList text := by
    apply ofList_writtenList empty listed
    · intro grouping member
      obtain ⟨item, filled, trimmed, rfl⟩ := exists_item_of_mem_ofList member
      exact trim_written_ofItem trimmed filled
    · intro grouping member
      obtain ⟨item, filled, _, rfl⟩ := exists_item_of_mem_ofList member
      exact written_ofItem_ne_nil filled
    · intro grouping member
      obtain ⟨item, _, _, rfl⟩ := exists_item_of_mem_ofList member
      exact ofItem_written_ofItem item
    · exact List.forall_mem_nil _
  rwa [List.append_nil] at read

end Grouping

namespace Descriptor

/-- What a listing shows for the groupings. -/
def groupTexts (descriptor : Descriptor) : List Text :=
  (descriptor.clauseLines.filter (·.label = "group".toList)).map ListingLine.content

/-- The group lines of a listing show the written groupings, in order. -/
theorem groupTexts_eq (descriptor : Descriptor) :
    descriptor.groupTexts = descriptor.groupings.map Grouping.written := by
  have others {label : Text} (other : label ≠ "group".toList) (clause : Option Text) :
      (clause.toList.map fun content => (⟨label, content⟩ : ListingLine)).filter
        (·.label = "group".toList) = [] := by
    cases clause with
    | none => rfl
    | some content => exact List.filter_cons_of_neg fun shown => other (of_decide_eq_true shown)
  have grouped (line : ListingLine)
      (member : line ∈ descriptor.groupings.map fun grouping =>
        (⟨"group".toList, grouping.written⟩ : ListingLine)) :
      decide (line.label = "group".toList) = true := by
    obtain ⟨grouping, _, rfl⟩ := List.mem_map.mp member
    exact decide_eq_true rfl
  rw [groupTexts, clauseLines, List.filter_append, List.filter_append, others (by decide),
    others (by decide), List.filter_eq_self.mpr grouped, List.nil_append, List.nil_append,
    List.map_map]
  rfl

end Descriptor

namespace Outline

/-- The groupings of a query are read from one list. -/
theorem exists_groupings_eq (query : Text) :
    ∃ text, (ofQuery query).groupings = Grouping.ofList text := by
  rw [ofQuery]
  cases Separator.groupBy.cut? (' ' :: (query ++ [' '])) with
  | none => exact ⟨[], rfl⟩
  | some found => exact ⟨found.2, rfl⟩

/-- **The groupings of a query are read back from a listing.** -/
theorem ofQuery_groupTexts {query : Text} {descriptor : Descriptor}
    (grouped : descriptor.groupings = (ofQuery query).groupings) :
    ofQuery ("GROUP BY ".toList ++ [',', ' '].intercalate descriptor.groupTexts) =
      { filter := none, order := none, groupings := (ofQuery query).groupings } := by
  obtain ⟨text, same⟩ := exists_groupings_eq query
  have clause : "GROUP BY ".toList ++ [',', ' '].intercalate descriptor.groupTexts =
      ClauseKind.grouping.query (Grouping.writtenList (Grouping.ofList text)) := by
    rw [Descriptor.groupTexts_eq, grouped, same]
    rfl
  rw [clause, ClauseKind.ofQuery_grouping, Grouping.ofList_writtenList_ofList, same]

/-- A parenthesis and a quote that are never closed, commas in a label, two labels behind one
another, and items that are left out. -/
theorem ofQuery_groupTexts_unclosed :
    let query := "group by , ) b aſ 'c',, F(d, e)\tAs\u2003'x, (' as 'y', it's , (j".toList
    let groupings : List Grouping :=
      [⟨") b".toList, some "c".toList⟩, ⟨"F(d, e)".toList, some "x, (' as 'y".toList⟩,
        ⟨"it's , (j".toList, none⟩]
    let descriptor : Descriptor :=
      { filter := none, order := none, groupings, tagReferences := [], attributeReferences := [] }
    descriptor.groupings = (ofQuery query).groupings ∧
      ofQuery ("GROUP BY ".toList ++ [',', ' '].intercalate descriptor.groupTexts) =
        { filter := none, order := none, groupings } := by
  intro query groupings descriptor
  have grouped : descriptor.groupings = (ofQuery query).groupings := by decide +kernel
  have read := ofQuery_groupTexts grouped
  rw [← grouped] at read
  exact ⟨grouped, read⟩

end Outline

end NoteQuery
