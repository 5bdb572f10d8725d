import Mathlib.Data.List.Infix
import NoteQuery.Proofs.Query.Clauses
import NoteQuery.Proofs.Text.Delimiters
import NoteQuery.Proofs.Text.Trimming

/-! # Reading groupings back

Groupings that are written one behind the other, with a comma and a blank between them, are read
back from the text (`Grouping.ofList_written`). A list is cut at the commas outside of quotes and
parentheses: the criteria of a grouping keep their commas in parentheses, which are balanced
(`Grouping.uncut_criteria`), a label may hold any commas and parentheses (`Grouping.uncut_name`),
and the label of an item is the first one in it (`Grouping.cutLabel?_eq_some_iff`).
-/

namespace NoteQuery

open Delimiters (parentheses)

theorem toUpper_of_isBlank {c : Char} (blank : isBlank c = true) : c.toUpper = c := by
  unfold Char.toUpper
  split
  · rename_i lower
    have word : isWord c = true := by
      have range : c.isLower = true :=
        Bool.and_eq_true_iff.mpr ⟨decide_eq_true lower.1, decide_eq_true lower.2⟩
      have letter : c.isAlpha = true := Bool.or_eq_true_iff.mpr (.inr range)
      simp [isWord, Char.isAlphanum, letter]
    rw [isBlank_of_isWord word] at blank
    cases blank
  · rfl

/-- Every comma of a text stands in parentheses, `depth` of which were open in front of it. -/
def EnclosesCommas (depth : Nat) (text : Text) : Prop :=
  ∀ front behind, text = front ++ ',' :: behind → front.count ')' < depth + front.count '('

instance (depth : Nat) (text : Text) : Decidable (EnclosesCommas depth text) :=
  decidable_of_iff (∀ front ∈ text.inits, front ++ [','] <+: text →
      front.count ')' < depth + front.count '(') <| by
    constructor
    · rintro encloses front behind rfl
      exact encloses front ((List.mem_inits _ _).mpr (List.prefix_append _ _)) ⟨behind, by simp⟩
    · rintro encloses front _ ⟨behind, whole⟩
      exact encloses front behind (by rw [← whole]; simp)

/-- A grouping that can be written in a list and read back. -/
structure Grouping.Writable (grouping : Grouping) : Prop where
  filled : grouping.criteria ≠ []
  trimmed : grouping.criteria.trim = grouping.criteria
  unquoted : '\'' ∉ grouping.criteria
  balanced : parentheses.Balanced grouping.criteria
  enclosed : EnclosesCommas 0 grouping.criteria
  name_unquoted : ∀ name ∈ grouping.name, '\'' ∉ name

namespace Grouping

variable {depth : Nat} {criteria name text rest item : Text} {c : Char} {grouping : Grouping}

/-- A character that separates no items belongs to the item in front of it. -/
theorem items_cons {quoted : Bool} {c : Char}
    (joined : c = ',' → quoted = true ∨ 0 < depth) :
    items quoted depth (c :: rest) =
      (items (if c = '\'' then !quoted else quoted)
        (if quoted then depth
          else if c = '(' then depth + 1
          else if c = ')' then depth - 1
          else depth) rest).modifyHead (c :: ·) := by
  rw [items, if_neg]
  simp only [Bool.and_eq_true, decide_eq_true_eq, Bool.not_eq_true', beq_iff_eq, not_and]
  rintro ⟨comma, unquoted⟩ outside
  rcases joined comma with quoted | inside
  · rw [unquoted] at quoted
    cases quoted
  · omega

theorem items_comma : items false 0 (',' :: rest) = [] :: items false 0 rest := rfl

/-- The parentheses that are open behind a character, when `depth` of them are open in front of it.
A closing parenthesis without an open one has no effect. -/
def openBehind (depth : Nat) (c : Char) : Nat :=
  if c = '(' then depth + 1
  else if c = ')' then depth - 1
  else depth

/-- A place in a list: whether it is in quotes, and in how many parentheses. -/
structure Place where
  quoted : Bool
  depth : Nat

/-- The place where a comma separates items, which is also the place where a list starts. -/
def Place.outer : Place := ⟨false, 0⟩

/-- The place behind a character. -/
def Place.behind (place : Place) (c : Char) : Place where
  quoted := if c = '\'' then !place.quoted else place.quoted
  depth := if place.quoted then place.depth else openBehind place.depth c

/-- The place behind a text. -/
def Place.after (place : Place) (text : Text) : Place :=
  text.foldl Place.behind place

/-- No comma of a text separates items. -/
def Uncut (place : Place) (text : Text) : Prop :=
  ∀ front behind, text = front ++ ',' :: behind → place.after front ≠ .outer

variable {place : Place}

theorem after_cons (place : Place) (c : Char) (text : Text) :
    place.after (c :: text) = (place.behind c).after text := rfl

/-- A text is not cut when its first character is no separating comma and the rest is not cut in the
state behind it. -/
theorem uncut_cons_iff :
    Uncut place (c :: text) ↔ (c = ',' → place ≠ .outer) ∧ Uncut (place.behind c) text := by
  constructor
  · intro uncut
    constructor
    · rintro rfl
      exact uncut [] text rfl
    · rintro front behind rfl
      exact uncut (c :: front) behind rfl
  · rintro ⟨here, later⟩ front behind same
    cases front with
    | nil => exact here (List.cons.inj same).1
    | cons d front =>
        obtain ⟨rfl, rest⟩ := List.cons.inj same
        exact later front behind rest

/-- The items from a place on. -/
theorem items_cons_of_uncut (joined : c = ',' → place ≠ .outer) :
    items place.quoted place.depth (c :: rest) =
      (items (place.behind c).quoted (place.behind c).depth rest).modifyHead (c :: ·) := by
  obtain ⟨quoted, depth⟩ := place
  refine items_cons fun comma => ?_
  by_contra separates
  simp only [not_or, Bool.not_eq_true, Nat.not_lt, Nat.le_zero] at separates
  obtain ⟨rfl, rfl⟩ := separates
  exact joined comma rfl

/-- An uncut text belongs to one item. -/
theorem items_append_of_uncut (uncut : Uncut place text) :
    items place.quoted place.depth (text ++ rest) =
      (items (place.after text).quoted (place.after text).depth rest).modifyHead (text ++ ·) := by
  induction text generalizing place with
  | nil =>
      rw [List.nil_append, Place.after, List.foldl_nil]
      cases items place.quoted place.depth rest <;> rfl
  | cons c text ih =>
      obtain ⟨here, later⟩ := uncut_cons_iff.mp uncut
      rw [List.cons_append, items_cons_of_uncut here, ih later, after_cons]
      cases items _ _ rest <;> rfl

/-- A text that is not cut is one item. -/
theorem items_of_uncut (uncut : Uncut place text) :
    items place.quoted place.depth text = [text] := by
  have one : items place.quoted place.depth (text ++ []) =
      (items (place.after text).quoted (place.after text).depth []).modifyHead (text ++ ·) :=
    items_append_of_uncut uncut
  rwa [List.append_nil, items, List.modifyHead_cons, List.append_nil] at one

theorem after_append (place : Place) (front behind : Text) :
    place.after (front ++ behind) = (place.after front).after behind :=
  List.foldl_append

/-- Joined texts are not cut when neither is, the second one in the state behind the first one. -/
theorem uncut_append_iff {front behind : Text} :
    Uncut place (front ++ behind) ↔ Uncut place front ∧ Uncut (place.after front) behind := by
  induction front generalizing place with
  | nil => simp [Uncut, Place.after]
  | cons c front ih =>
      rw [List.cons_append, uncut_cons_iff, uncut_cons_iff, ih, and_assoc, after_cons]

theorem uncut_of_not_mem (joined : ',' ∉ text) : Uncut place text := by
  rintro front behind rfl
  exact (joined (by simp)).elim

/-- Blanks separate no items. -/
theorem uncut_of_blank (blank : ∀ c ∈ text, isBlank c = true) : Uncut place text := by
  refine uncut_of_not_mem fun member => ?_
  cases blank ',' member

/-- Without quotes the place behind a text outside of quotes is told by its parentheses. -/
theorem after_of_unquoted (unquoted : '\'' ∉ text) :
    (⟨false, depth⟩ : Place).after text = ⟨false, text.foldl openBehind depth⟩ := by
  induction text generalizing depth with
  | nil => rfl
  | cons c text ih =>
      rw [List.mem_cons, not_or] at unquoted
      have here : (⟨false, depth⟩ : Place).behind c = ⟨false, openBehind depth c⟩ := by
        simp [Place.behind, Ne.symm unquoted.1]
      rw [after_cons, here, ih unquoted.2, List.foldl_cons]

/-- Without quotes a text outside of quotes is uncut when all its commas are in parentheses. -/
theorem uncut_of_unquoted (unquoted : '\'' ∉ text)
    (joined : ∀ front behind, text = front ++ ',' :: behind → 0 < front.foldl openBehind depth) :
    Uncut ⟨false, depth⟩ text := by
  rintro front behind rfl outer
  have inside := joined front behind rfl
  rw [List.mem_append, not_or] at unquoted
  rw [after_of_unquoted unquoted.1, Place.outer, Place.mk.injEq] at outer
  omega

/-- In a matched text every closing parenthesis closes an open one. -/
theorem foldl_openBehind_of_matched (matched : parentheses.Matched depth text) :
    text.foldl openBehind depth + text.count ')' = depth + text.count '(' := by
  induction text generalizing depth with
  | nil => rfl
  | cons c text ih =>
      rw [List.foldl_cons, openBehind]
      by_cases opening : c = '('
      · subst opening
        have later := ih (Delimiters.matched_opening_cons_iff.mp matched)
        rw [if_pos rfl, List.count_cons_of_ne (by decide), List.count_cons_self]
        omega
      · by_cases closing : c = ')'
        · subst closing
          cases depth with
          | zero => exact (Delimiters.not_matched_closing_cons matched).elim
          | succ depth =>
              have later := ih (Delimiters.matched_closing_cons_iff.mp matched)
              rw [if_neg opening, if_pos rfl, List.count_cons_self,
                List.count_cons_of_ne (by decide), Nat.add_sub_cancel]
              omega
        · have later := ih ((Delimiters.matched_cons_iff_of_ne opening closing).mp matched)
          rw [if_neg opening, if_neg closing, List.count_cons_of_ne closing,
            List.count_cons_of_ne opening, later]

/-- Criteria that close all parentheses and keep their commas in them are uncut. -/
theorem uncut_criteria (unquoted : '\'' ∉ text) (balanced : parentheses.Balanced text)
    (encloses : EnclosesCommas 0 text) :
    Uncut .outer text ∧ Place.outer.after text = .outer := by
  constructor
  · refine uncut_of_unquoted unquoted ?_
    rintro front behind rfl
    have matched : parentheses.Matched 0 front := fun start begun =>
      balanced.matched start (begun.trans (List.prefix_append front _))
    have counted := foldl_openBehind_of_matched matched
    have enclosed := encloses front behind rfl
    omega
  · have counted := foldl_openBehind_of_matched balanced.matched
    have total : text.count ')' = 0 + text.count '(' := balanced.total
    have closed : text.foldl openBehind 0 = 0 := by omega
    rw [Place.outer, after_of_unquoted unquoted, closed]

/-- A name in quotes is uncut, whatever it holds. -/
theorem uncut_name (unquoted : '\'' ∉ name) (depth : Nat) :
    Uncut ⟨true, depth⟩ name ∧ (⟨true, depth⟩ : Place).after name = ⟨true, depth⟩ := by
  induction name with
  | nil => exact ⟨uncut_of_not_mem List.not_mem_nil, rfl⟩
  | cons c name ih =>
      rw [List.mem_cons, not_or] at unquoted
      have here : (⟨true, depth⟩ : Place).behind c = ⟨true, depth⟩ := by
        simp [Place.behind, Ne.symm unquoted.1]
      obtain ⟨uncut, after⟩ := ih unquoted.2
      rw [uncut_cons_iff, here, after_cons, here]
      exact ⟨⟨fun _ => by simp [Place.outer], uncut⟩, after⟩

/-- The text between the criteria of a grouping and its name. -/
def nameOpening : Text := " AS ".toList

theorem written_some (criteria name : Text) :
    (⟨criteria, some name⟩ : Grouping).written =
      criteria ++ (nameOpening ++ '\'' :: (name ++ ['\''])) := by
  simp [written, nameOpening]

/-- A label ends in a quote, so behind criteria it leaves no blanks to trim. -/
theorem trim_written_some (filled : criteria ≠ [])
    (start : ∀ c ∈ criteria.head?, isBlank c = false) :
    (⟨criteria, some name⟩ : Grouping).written.trim =
      (⟨criteria, some name⟩ : Grouping).written := by
  obtain ⟨c, criteria, rfl⟩ := List.exists_cons_of_ne_nil filled
  rw [written_some]
  refine Text.trim_eq_self_iff.mpr ⟨start, ?_⟩
  intro d last
  simp only [← List.cons_append, ← List.append_assoc, List.getLast?_append,
    List.getLast?_singleton, Option.some_or, Option.mem_def, Option.some.injEq] at last
  subst last
  rfl

namespace Writable

/-- A grouping that is written belongs to one item, behind which a comma separates. -/
theorem uncut_written (writable : grouping.Writable) :
    Uncut .outer grouping.written ∧ Place.outer.after grouping.written = .outer := by
  obtain ⟨criteria, name⟩ := grouping
  have front := uncut_criteria writable.unquoted writable.balanced writable.enclosed
  cases name with
  | none => exact front
  | some name =>
      have opening : Uncut .outer (nameOpening ++ ['\'']) := uncut_of_not_mem (by decide)
      have inside := uncut_name (writable.name_unquoted name rfl) 0
      have opened : Place.outer.after (nameOpening ++ ['\'']) = ⟨true, 0⟩ := rfl
      have closed : (⟨true, 0⟩ : Place).after ['\''] = .outer := rfl
      have whole : (⟨criteria, some name⟩ : Grouping).written =
          criteria ++ ((nameOpening ++ ['\'']) ++ (name ++ ['\''])) := by
        rw [written_some]
        simp
      have label : Uncut .outer ((nameOpening ++ ['\'']) ++ (name ++ ['\''])) := by
        refine uncut_append_iff.mpr ⟨opening, ?_⟩
        rw [opened]
        exact uncut_append_iff.mpr ⟨inside.1, uncut_of_not_mem (by decide)⟩
      rw [whole, uncut_append_iff, front.2, after_append, front.2, after_append, opened,
        after_append, inside.2, closed]
      exact ⟨⟨front.1, label⟩, rfl⟩

/-- A grouping that is written has no blanks at its ends. -/
theorem trim_written (writable : grouping.Writable) : grouping.written.trim = grouping.written := by
  obtain ⟨criteria, name⟩ := grouping
  cases name with
  | none => exact writable.trimmed
  | some name =>
      exact trim_written_some writable.filled (Text.trim_eq_self_iff.mp writable.trimmed).1

theorem written_ne_nil (writable : grouping.Writable) : grouping.written ≠ [] := by
  obtain ⟨criteria, name⟩ := grouping
  obtain ⟨c, rest, same⟩ := List.exists_cons_of_ne_nil writable.filled
  cases same
  cases name <;> exact List.cons_ne_nil c _

end Writable

/-- The letters in front of a label are no blanks. -/
theorem isBlank_of_isLabelWord {first second : Char} (word : isLabelWord first second = true) :
    isBlank first = false ∧ isBlank second = false := by
  simp only [isLabelWord, Bool.and_eq_true, Bool.or_eq_true, beq_iff_eq] at word
  constructor
  · by_contra blank
    rw [Bool.not_eq_false] at blank
    rw [toUpper_of_isBlank blank] at word
    rw [word.1] at blank
    cases blank
  · by_contra blank
    rw [Bool.not_eq_false] at blank
    rw [toUpper_of_isBlank blank] at word
    rcases word.2 with rfl | rfl <;> cases blank

/-- A label is blanks, the word `AS`, blanks and a name in quotes. -/
theorem label?_eq_some_iff :
    label? text = some name ↔
      ∃ before first second between,
        text = before ++ first :: second :: (between ++ '\'' :: (name ++ ['\''])) ∧
          before ≠ [] ∧ (∀ c ∈ before, isBlank c = true) ∧ isLabelWord first second = true ∧
          between ≠ [] ∧ ∀ c ∈ between, isBlank c = true := by
  constructor
  · intro read
    unfold label? at read
    split at read
    · rename_i before first second rest run
      obtain ⟨rfl, filled, blank, _⟩ := Text.run?_eq_some_iff.mp run
      rw [Option.ite_none_right_eq_some] at read
      obtain ⟨word, read⟩ := read
      split at read
      · rename_i between quoted run
        obtain ⟨rfl, filled', blank', _⟩ := Text.run?_eq_some_iff.mp run
        rw [Option.ite_none_right_eq_some, Option.some.injEq] at read
        obtain ⟨last, rfl⟩ := read
        obtain ⟨name, rfl⟩ := List.getLast?_eq_some_iff.mp last
        rw [List.dropLast_concat]
        exact ⟨before, first, second, between, rfl, filled, blank, word, filled', blank'⟩
      · cases read
    · cases read
  · rintro ⟨before, first, second, between, rfl, filled, blank, word, filled', blank'⟩
    have front : Text.run? isBlank
        (before ++ first :: second :: (between ++ '\'' :: (name ++ ['\'']))) =
          some (before, first :: second :: (between ++ '\'' :: (name ++ ['\'']))) := by
      refine Text.run?_eq_some_iff.mpr ⟨rfl, filled, blank, ?_⟩
      rintro c ⟨⟩
      exact (isBlank_of_isLabelWord word).1
    have back : Text.run? isBlank (between ++ '\'' :: (name ++ ['\''])) =
        some (between, '\'' :: (name ++ ['\''])) := by
      refine Text.run?_eq_some_iff.mpr ⟨rfl, filled', blank', ?_⟩
      rintro c ⟨⟩
      rfl
    simp only [label?, front, word, back, List.getLast?_concat, List.dropLast_concat, ↓reduceIte]

/-- An item without quotes has no label. -/
theorem cutLabel?_of_not_mem (unquoted : '\'' ∉ text) : cutLabel? text = none := by
  induction text with
  | nil => rfl
  | cons c text ih =>
      have unlabelled : label? (c :: text) = none := by
        rw [Option.eq_none_iff_forall_ne_some]
        intro name read
        obtain ⟨before, first, second, between, whole, _⟩ := label?_eq_some_iff.mp read
        rw [whole] at unquoted
        exact unquoted (by simp)
      rw [List.mem_cons, not_or] at unquoted
      rw [cutLabel?_cons, unlabelled, ih unquoted.2]
      rfl

/-- The name of a label starts behind its first quote. -/
theorem quote_notMem_labelOpening {before between : Text} {first second : Char}
    (blank : ∀ c ∈ before, isBlank c = true) (word : isLabelWord first second = true)
    (blank' : ∀ c ∈ between, isBlank c = true) : '\'' ∉ before ++ first :: second :: between := by
  simp only [List.mem_append, List.mem_cons, not_or]
  refine ⟨fun member => ?_, ?_, ?_, fun member => ?_⟩
  · cases blank _ member
  · rintro rfl
    cases word
  · rintro rfl
    rw [isLabelWord, show ('\''.toUpper == 'S' || '\'' == 'ſ') = false by decide,
      Bool.and_false] at word
    cases word
  · cases blank' _ member

/-- The label that is written behind the criteria does not start earlier. -/
theorem label?_eq_none {place : Text} (unquoted : '\'' ∉ place)
    (filled : ∃ c ∈ place, isBlank c = false) :
    label? (place ++ (nameOpening ++ '\'' :: (name ++ ['\'']))) = none := by
  rw [Option.eq_none_iff_forall_ne_some]
  intro other read
  obtain ⟨before, first, second, between, whole, _, blank, word, spaced, blank'⟩ :=
    label?_eq_some_iff.mp read
  have unquoted' := quote_notMem_labelOpening blank word blank'
  have unquoted'' : '\'' ∉ place ++ nameOpening := by
    rw [List.mem_append, not_or]
    exact ⟨unquoted, by decide⟩
  have marked : (place ++ nameOpening) ++ '\'' :: (name ++ ['\'']) =
      (before ++ first :: second :: between) ++ '\'' :: (other ++ ['\'']) := by
    simpa using whole
  obtain ⟨same, _⟩ := Text.eq_of_first_mark marked unquoted'' unquoted'
  -- From the right: one blank, the two letters, and then only blanks.
  obtain ⟨more, last, rfl⟩ := (List.eq_nil_or_concat between).resolve_left spaced
  have letters : place ++ [' ', 'A', 'S'] = before ++ first :: second :: more := by
    have split : (place ++ [' ', 'A', 'S']) ++ [' '] =
        (before ++ first :: second :: more) ++ [last] := by
      simpa [nameOpening] using same
    exact (List.append_inj' split rfl).1
  cases more using List.reverseRecOn with
  | nil =>
      have split : (place ++ [' ']) ++ ['A', 'S'] = before ++ [first, second] := by
        simpa using letters
      have blanks := (List.append_inj' split rfl).1
      obtain ⟨c, member, unblank⟩ := filled
      rw [blank c (blanks ▸ List.mem_append_left _ member)] at unblank
      cases unblank
  | append_singleton more d _ =>
      have split : (place ++ [' ', 'A']) ++ ['S'] = (before ++ first :: second :: more) ++ [d] := by
        simpa using letters
      have same := (List.append_inj' split rfl).2
      rw [List.cons.injEq] at same
      have blank := blank' d (by simp)
      rw [← same.1] at blank
      cases blank

/-- The written label is read back. -/
theorem label?_nameOpening (name : Text) :
    label? (nameOpening ++ '\'' :: (name ++ ['\''])) = some name :=
  label?_eq_some_iff.mpr ⟨[' '], 'A', 'S', [' '], rfl, List.cons_ne_nil _ _,
    List.forall_mem_singleton.mpr rfl, rfl, List.cons_ne_nil _ _,
    List.forall_mem_singleton.mpr rfl⟩

/-- Text with a last character that is no blank has such a one from any of its places on. -/
theorem exists_unblank_of_suffix {start : Text} (ends : ∀ c ∈ text.getLast?, isBlank c = false)
    (filled : start ≠ []) (suffix : start <:+ text) : ∃ c ∈ start, isBlank c = false := by
  obtain ⟨c, last⟩ := Option.isSome_iff_exists.mp (List.getLast?_isSome.mpr filled)
  refine ⟨c, List.mem_of_mem_getLast? last, ends c ?_⟩
  obtain ⟨front, rfl⟩ := suffix
  rw [List.getLast?_append, Option.mem_def.mp last]
  rfl

/-- The cut is made in front of a label, in front of which no place starts a label. -/
theorem cutLabel?_eq_some_iff :
    cutLabel? text = some (criteria, name) ↔
      ∃ label, text = criteria ++ label ∧ label? label = some name ∧
        ∀ start ≠ [], start <:+ criteria → label? (start ++ label) = none := by
  induction text generalizing criteria with
  | nil =>
      constructor
      · intro cut
        cases cut
      · rintro ⟨label, whole, read, _⟩
        obtain ⟨rfl, rfl⟩ := List.append_eq_nil_iff.mp whole.symm
        cases read
  | cons c text ih =>
      rw [cutLabel?_cons]
      cases here : label? (c :: text) with
      | some first =>
          simp only [Option.some.injEq, Prod.mk.injEq]
          constructor
          · rintro ⟨rfl, rfl⟩
            refine ⟨c :: text, rfl, here, fun start filled suffix => ?_⟩
            exact (filled (List.suffix_nil.mp suffix)).elim
          · rintro ⟨label, whole, read, unlabelled⟩
            cases criteria with
            | nil =>
                rw [List.nil_append] at whole
                rw [whole, read, Option.some.injEq] at here
                exact ⟨rfl, here.symm⟩
            | cons d criteria =>
                have later := unlabelled _ (List.cons_ne_nil d criteria) (List.suffix_refl _)
                rw [← whole, here] at later
                cases later
      | none =>
          cases criteria with
          | nil =>
              refine iff_of_false (by simp) ?_
              rintro ⟨label, whole, read, _⟩
              rw [whole, List.nil_append, read] at here
              cases here
          | cons d criteria =>
              simp only [Option.map_eq_some_iff, Prod.exists, Prod.mk.injEq, List.cons.injEq]
              constructor
              · rintro ⟨_, _, cut, ⟨rfl, rfl⟩, rfl⟩
                obtain ⟨label, rfl, read, unlabelled⟩ := ih.mp cut
                refine ⟨label, rfl, read, fun start filled suffix => ?_⟩
                rcases List.suffix_cons_iff.mp suffix with rfl | later
                · exact here
                · exact unlabelled start filled later
              · rintro ⟨label, ⟨rfl, rfl⟩, read, unlabelled⟩
                refine ⟨criteria, name, ih.mpr ⟨label, rfl, read, ?_⟩, ⟨rfl, rfl⟩, rfl⟩
                exact fun start filled suffix =>
                  unlabelled start filled (suffix.trans (List.suffix_cons c criteria))

/-- A written item is cut into its criteria and its label. -/
theorem cutLabel?_written {criteria : Text} (unquoted : '\'' ∉ criteria)
    (ends : ∀ c ∈ criteria.getLast?, isBlank c = false) :
    cutLabel? (criteria ++ (nameOpening ++ '\'' :: (name ++ ['\'']))) = some (criteria, name) := by
  refine cutLabel?_eq_some_iff.mpr ⟨_, rfl, label?_nameOpening name, ?_⟩
  intro start filled suffix
  exact label?_eq_none (fun member => unquoted (suffix.subset member))
    (exists_unblank_of_suffix ends filled suffix)

/-- A written grouping is read back. -/
theorem Writable.ofItem_written (writable : grouping.Writable) :
    ofItem grouping.written = grouping := by
  obtain ⟨criteria, name⟩ := grouping
  cases name with
  | none =>
      have whole : (⟨criteria, none⟩ : Grouping).written = criteria := rfl
      rw [whole, ofItem, cutLabel?_of_not_mem writable.unquoted]
  | some name =>
      have ends := (Text.trim_eq_self_iff.mp writable.trimmed).2
      rw [written_some, ofItem, cutLabel?_written writable.unquoted ends]

/-- Texts that can be the items of a list: none of them is cut, and all but the last one end where
a comma separates items. -/
inductive Listed : List Text → Prop
  | nil : Listed []
  | cons {item : Text} {more : List Text} (uncut : Uncut .outer item)
      (ends : more = [] ∨ Place.outer.after item = .outer) (listed : Listed more) :
      Listed (item :: more)

/-- A blank in front of the first item is trimmed. -/
theorem map_trim_cons_blank (texts : List Text) :
    (texts.modifyHead (' ' :: ·)).map Text.trim = texts.map Text.trim := by
  cases texts with
  | nil => rfl
  | cons first more =>
      rw [List.modifyHead_cons, List.map_cons, Text.trim_cons_blank rfl, List.map_cons]

/-- The items of a list are the texts that are listed, up to blanks at their ends. -/
theorem Listed.map_trim_items {texts : List Text} {blanks : Text} (listed : Listed texts)
    (filled : texts ≠ []) (trimmed : ∀ text ∈ texts, text.trim = text)
    (blank : ∀ c ∈ blanks, isBlank c = true) :
    (items false 0 ([',', ' '].intercalate texts ++ blanks)).map Text.trim = texts := by
  induction listed with
  | nil => exact (filled rfl).elim
  | @cons item more uncut ends _ ih =>
      have here := trimmed item List.mem_cons_self
      cases more with
      | nil =>
          have one : items false 0 (item ++ blanks) = [item ++ blanks] :=
            items_of_uncut (uncut_append_iff.mpr ⟨uncut, uncut_of_blank blank⟩)
          rw [List.intercalate_singleton, one, List.map_singleton,
            Text.trim_append_blank here blank]
      | cons second more =>
          have later := ih (List.cons_ne_nil _ _) fun text member =>
            trimmed text (List.mem_cons_of_mem _ member)
          have outer := ends.resolve_left (List.cons_ne_nil _ _)
          have joined (rest : Text) :
              items false 0 (item ++ ',' :: ' ' :: rest) =
                item :: (items false 0 rest).modifyHead (' ' :: ·) := by
            have whole : items false 0 (item ++ ',' :: ' ' :: rest) =
                (items (Place.outer.after item).quoted (Place.outer.after item).depth
                  (',' :: ' ' :: rest)).modifyHead (item ++ ·) := items_append_of_uncut uncut
            have behind : items false 0 (',' :: ' ' :: rest) =
                [] :: (items false 0 rest).modifyHead (' ' :: ·) := rfl
            rw [whole, outer]
            change (items false 0 (',' :: ' ' :: rest)).modifyHead _ = _
            rw [behind, List.modifyHead_cons, List.append_nil]
          have listing : [',', ' '].intercalate (item :: second :: more) ++ blanks =
              item ++ ',' :: ' ' :: ([',', ' '].intercalate (second :: more) ++ blanks) := by simp
          rw [listing, joined, List.map_cons, here, map_trim_cons_blank, later]

/-- Groupings as they are written behind one another. -/
def writtenList (groupings : List Grouping) : Text :=
  [',', ' '].intercalate (groupings.map written)

/-- **Groupings that are written are read back** from a list when their written forms can be listed
and each of them is read back on its own. -/
theorem ofList_writtenList {groupings : List Grouping} {blanks : Text} (filled : groupings ≠ [])
    (listed : Listed (groupings.map written))
    (trimmed : ∀ grouping ∈ groupings, grouping.written.trim = grouping.written)
    (nonempty : ∀ grouping ∈ groupings, grouping.written ≠ [])
    (reread : ∀ grouping ∈ groupings, ofItem grouping.written = grouping)
    (blank : ∀ c ∈ blanks, isBlank c = true) :
    ofList (writtenList groupings ++ blanks) = groupings := by
  have kept : ∀ item ∈ groupings.map written, (!item.isEmpty) = true := by
    intro _ member
    obtain ⟨grouping, inside, rfl⟩ := List.mem_map.mp member
    simpa using nonempty grouping inside
  calc ofList (writtenList groupings ++ blanks)
      = (groupings.map written).map ofItem := by
        rw [ofList, writtenList, listed.map_trim_items (by simpa using filled)
          (List.forall_mem_map.mpr trimmed) blank, List.filter_eq_self.mpr kept]
    _ = groupings := by
        rw [List.map_map]
        exact (List.map_congr_left reread).trans (List.map_id groupings)

/-- Groupings that are written can be the items of a list. -/
theorem listed_of_writable {groupings : List Grouping}
    (writable : ∀ grouping ∈ groupings, grouping.Writable) : Listed (groupings.map written) := by
  induction groupings with
  | nil => exact .nil
  | cons first more ih =>
      obtain ⟨uncut, after⟩ := (writable first List.mem_cons_self).uncut_written
      exact .cons uncut (.inr after)
        (ih fun grouping member => writable grouping (List.mem_cons_of_mem first member))

/-- **A written list of groupings is read back.** -/
theorem ofList_written {groupings : List Grouping} (filled : groupings ≠ [])
    (writable : ∀ grouping ∈ groupings, grouping.Writable) :
    ofList (writtenList groupings ++ [' ']) = groupings :=
  ofList_writtenList filled (listed_of_writable writable)
    (fun grouping member => (writable grouping member).trim_written)
    (fun grouping member => (writable grouping member).written_ne_nil)
    (fun grouping member => (writable grouping member).ofItem_written)
    (List.forall_mem_singleton.mpr rfl)

end Grouping

end NoteQuery
