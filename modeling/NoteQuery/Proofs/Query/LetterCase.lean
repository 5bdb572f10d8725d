import NoteQuery.Proofs.Query.Outline

/-! # Queries in another letter case

A query that is typed in another letter case is cut at the same places: its outline is the outline
of the query, with the letters of every clause, criterion and label in that case
(`Outline.ofQuery_map`). What a separator, an item and a label are is told by characters that are no
letters and by letters in upper case (`Recases.eq_iff`), and neither depends on the case.
-/

namespace NoteQuery

/-- The upper case moves the small letters by 32 and nothing else. -/
theorem toNat_toUpper (c : Char) :
    c.toUpper.toNat = if 97 ≤ c.toNat ∧ c.toNat ≤ 122 then c.toNat - 32 else c.toNat := by
  have lower : 'a'.val ≤ c.val ∧ c.val ≤ 'z'.val ↔ 97 ≤ c.toNat ∧ c.toNat ≤ 122 := Iff.rfl
  unfold Char.toUpper
  by_cases small : 'a'.val ≤ c.val ∧ c.val ≤ 'z'.val
  · have shifted : (c.val + ('A'.val - 'a'.val)).toNat = (c.toNat + 4294967264) % 4294967296 :=
      UInt32.toNat_add _ _
    have range := lower.mp small
    rw [dif_pos small, if_pos range]
    change (c.val + ('A'.val - 'a'.val)).toNat = _
    omega
  · rw [dif_neg small, if_neg fun range => small (lower.mpr range)]

/-- The lower case moves the capital letters by 32 and nothing else. -/
theorem toNat_toLower (c : Char) :
    c.toLower.toNat = if 65 ≤ c.toNat ∧ c.toNat ≤ 90 then c.toNat + 32 else c.toNat := by
  have upper : 'A'.val ≤ c.val ∧ c.val ≤ 'Z'.val ↔ 65 ≤ c.toNat ∧ c.toNat ≤ 90 := Iff.rfl
  unfold Char.toLower
  by_cases large : 'A'.val ≤ c.val ∧ c.val ≤ 'Z'.val
  · have shifted : (c.val + ('a'.val - 'A'.val)).toNat = (c.toNat + 32) % 4294967296 :=
      UInt32.toNat_add _ _
    have range := upper.mp large
    rw [dif_pos large, if_pos range]
    change (c.val + ('a'.val - 'A'.val)).toNat = _
    omega
  · rw [dif_neg large, if_neg fun range => large (upper.mpr range)]

/-- No blank is a letter, so the case makes no difference to blanks. -/
theorem isBlank_toUpper (c : Char) : isBlank c.toUpper = isBlank c := by
  rw [Bool.eq_iff_iff]
  simp only [isBlank, Bool.or_eq_true, Bool.and_eq_true, decide_eq_true_eq, beq_iff_eq,
    toNat_toUpper]
  split_ifs <;> omega

/-- Upper case neither gives nor takes a character that is no letter. -/
theorem toUpper_eq_iff {c mark : Char} (unlettered : mark.isAlpha = false) :
    c.toUpper = mark ↔ c = mark := by
  have letter : mark.isAlpha = true ↔ (65 ≤ mark.toNat ∧ mark.toNat ≤ 90) ∨
      (97 ≤ mark.toNat ∧ mark.toNat ≤ 122) := by
    unfold Char.isAlpha Char.isUpper Char.isLower
    simp only [Bool.or_eq_true, Bool.and_eq_true, decide_eq_true_eq]
    exact Iff.rfl
  simp only [unlettered, Bool.false_eq_true, false_iff, not_or] at letter
  rw [← Char.toNat_inj, ← Char.toNat_inj, toNat_toUpper]
  split_ifs <;> omega

/-- A function on characters that changes the case of letters and nothing else. -/
def Recases (recase : Char → Char) : Prop :=
  ∀ c, (recase c).toUpper = c.toUpper

theorem recases_toUpper : Recases Char.toUpper := by
  intro c
  apply Char.toNat_inj.mp
  rw [toNat_toUpper, toNat_toUpper]
  split_ifs <;> omega

theorem recases_toLower : Recases Char.toLower := by
  intro c
  apply Char.toNat_inj.mp
  rw [toNat_toUpper, toNat_toUpper, toNat_toLower]
  split_ifs <;> omega

variable {recase : Char → Char}

namespace Recases

/-- A character that is no letter stands where it stood before. -/
theorem eq_iff (recases : Recases recase) {c mark : Char} (unlettered : mark.isAlpha = false) :
    recase c = mark ↔ c = mark := by
  rw [← toUpper_eq_iff unlettered, recases, toUpper_eq_iff unlettered]

/-- A change of case leaves all characters as they are that are no letters. -/
theorem apply_eq (recases : Recases recase) {mark : Char} (unlettered : mark.isAlpha = false) :
    recase mark = mark :=
  (recases.eq_iff unlettered).mpr rfl

theorem isBlank_eq (recases : Recases recase) (c : Char) : isBlank (recase c) = isBlank c := by
  rw [← isBlank_toUpper, recases, isBlank_toUpper]

/-- The word in front of a label is the same word in any case. -/
theorem isLabelWord_eq (recases : Recases recase) (first second : Char) :
    Grouping.isLabelWord (recase first) (recase second) = Grouping.isLabelWord first second := by
  rw [Bool.eq_iff_iff]
  simp only [Grouping.isLabelWord, recases first, recases second, Bool.and_eq_true,
    Bool.or_eq_true, beq_iff_eq, recases.eq_iff (show 'ſ'.isAlpha = false by decide)]

end Recases

namespace Text

/-- A run of a class that does not look at the case is read in any case. -/
theorem run?_map {member : Char → Bool} (same : ∀ c, member (recase c) = member c) (text : Text) :
    run? member (text.map recase) =
      (run? member text).map (Prod.map (List.map recase) (List.map recase)) := by
  have unchanged : member ∘ recase = member := funext same
  rw [run?, run?, List.takeWhile_map, List.dropWhile_map, unchanged, List.isEmpty_map]
  split <;> rfl

/-- A change of case commutes with trimming. -/
theorem trim_map (recases : Recases recase) (text : Text) :
    trim (text.map recase) = text.trim.map recase := by
  have unchanged : isBlank ∘ recase = isBlank := funext recases.isBlank_eq
  simp only [trim, trimStart, trimEnd, List.dropWhile_map, ← List.map_reverse, unchanged]

end Text

namespace Separator

/-- The letters of a separator are read in any case, and what stands behind them changes its
case. -/
theorem afterLetters?_map (recases : Recases recase) (letters text : Text) :
    afterLetters? letters (text.map recase) =
      (afterLetters? letters text).map (List.map recase) := by
  induction letters generalizing text with
  | nil => rfl
  | cons letter more ih =>
      cases text with
      | nil => rfl
      | cons c rest =>
          rw [List.map_cons, afterLetters?, afterLetters?, recases, ih]
          split <;> rfl

/-- A separator is read in any case, and what stands behind it changes its case. -/
theorem after?_map (recases : Recases recase) (separator : Separator) (text : Text) :
    separator.after? (text.map recase) = (separator.after? text).map (List.map recase) := by
  cases text with
  | nil => rfl
  | cons c rest =>
      rw [List.map_cons, after?, after?, recases.isBlank_eq, afterLetters?_map recases]
      split
      · cases afterLetters? separator.letters rest with
        | none => rfl
        | some behind =>
            cases behind with
            | nil => rfl
            | cons blank behind =>
                simp only [Option.map_some, List.map_cons, recases.isBlank_eq]
                split <;> rfl
      · rfl

/-- A text is cut at the same separator in any case. -/
theorem cut?_map (recases : Recases recase) (separator : Separator) (text : Text) :
    separator.cut? (text.map recase) =
      (separator.cut? text).map (Prod.map (List.map recase) (List.map recase)) := by
  induction text with
  | nil => rfl
  | cons c rest ih =>
      have here := after?_map recases separator (c :: rest)
      rw [List.map_cons] at here ⊢
      rw [cut?_cons, cut?_cons, here, ih]
      cases separator.after? (c :: rest) with
      | some behind => rfl
      | none => cases separator.cut? rest <;> rfl

end Separator

namespace Grouping

/-- A grouping with its texts changed. -/
def mapText (change : Text → Text) (grouping : Grouping) : Grouping where
  criteria := change grouping.criteria
  name := grouping.name.map change

/-- A list of groupings is cut at the same commas in any case. -/
theorem items_map (recases : Recases recase) (quoted : Bool) (depth : Nat) (text : Text) :
    items quoted depth (text.map recase) = (items quoted depth text).map (List.map recase) := by
  have same (c : Char) : (recase c = ',' ↔ c = ',') ∧ (recase c = '\'' ↔ c = '\'') ∧
      (recase c = '(' ↔ c = '(') ∧ (recase c = ')' ↔ c = ')') :=
    ⟨recases.eq_iff rfl, recases.eq_iff rfl, recases.eq_iff rfl, recases.eq_iff rfl⟩
  induction text generalizing quoted depth with
  | nil => rfl
  | cons c rest ih =>
      obtain ⟨comma, quote, opening, closing⟩ := same c
      simp only [List.map_cons, items, comma, quote, opening, closing, ih]
      split
      · rfl
      · cases items _ _ rest <;> rfl

/-- A label is a label in any case. -/
theorem label?_map (recases : Recases recase) (text : Text) :
    label? (text.map recase) = (label? text).map (List.map recase) := by
  have front := Text.run?_map recases.isBlank_eq text
  rw [label?, label?, front]
  cases Text.run? isBlank text with
  | none => rfl
  | some found =>
      obtain ⟨before, rest⟩ := found
      rcases rest with _ | ⟨first, _ | ⟨second, rest⟩⟩
      · rfl
      · rfl
      · have back := Text.run?_map recases.isBlank_eq rest
        simp only [Option.map_some, Prod.map, List.map_cons, recases.isLabelWord_eq, back]
        cases isLabelWord first second with
        | false => rfl
        | true =>
            rcases Text.run? isBlank rest with _ | ⟨between, _ | ⟨c, quoted⟩⟩
            · rfl
            · rfl
            · by_cases quote : c = '\''
              · have same (d : Char) : recase d = '\'' ↔ d = '\'' := recases.eq_iff rfl
                have last : (quoted.map recase).getLast? = some '\'' ↔
                    quoted.getLast? = some '\'' := by
                  rw [List.getLast?_map, Option.map_eq_some_iff]
                  simp [same]
                have kept : recase '\'' = '\'' := recases.apply_eq rfl
                subst quote
                simp only [Option.map_some, Prod.map, List.map_cons, kept, ↓reduceIte, last]
                split
                · rw [Option.map_some, List.map_dropLast]
                · rfl
              · have other : recase c ≠ '\'' :=
                  fun quoting => quote ((recases.eq_iff rfl).mp quoting)
                simp [quote, other]

/-- An item is cut in front of the same label in any case. -/
theorem cutLabel?_map (recases : Recases recase) (text : Text) :
    cutLabel? (text.map recase) =
      (cutLabel? text).map (Prod.map (List.map recase) (List.map recase)) := by
  induction text with
  | nil => rfl
  | cons c rest ih =>
      have here := label?_map recases (c :: rest)
      rw [List.map_cons] at here ⊢
      rw [cutLabel?_cons, cutLabel?_cons, here, ih]
      cases label? (c :: rest) with
      | some name => rfl
      | none => cases cutLabel? rest <;> rfl

/-- An item is read to the same grouping but for the case. -/
theorem ofItem_map (recases : Recases recase) (item : Text) :
    ofItem (item.map recase) = (ofItem item).mapText (List.map recase) := by
  rw [ofItem, ofItem, cutLabel?_map recases]
  cases cutLabel? item <;> rfl

/-- A list is read to the same groupings but for the case. -/
theorem ofList_map (recases : Recases recase) (text : Text) :
    ofList (text.map recase) = (ofList text).map (mapText (List.map recase)) := by
  have trimmed : Text.trim ∘ List.map recase = List.map recase ∘ Text.trim :=
    funext fun item => Text.trim_map recases item
  have filled : (fun item : Text => !item.isEmpty) ∘ List.map recase =
      fun item : Text => !item.isEmpty := by
    funext item
    rw [Function.comp_apply, List.isEmpty_map]
  have read : ofItem ∘ List.map recase = mapText (List.map recase) ∘ ofItem :=
    funext fun item => ofItem_map recases item
  rw [ofList, ofList, items_map recases, List.map_map, trimmed, ← List.map_map, List.filter_map,
    filled, List.map_map, read, List.map_map]

end Grouping

namespace Outline

/-- An outline with all its texts changed. -/
def mapText (change : Text → Text) (outline : Outline) : Outline where
  filter := outline.filter.map change
  order := outline.order.map change
  groupings := outline.groupings.map (Grouping.mapText change)

/-- The clauses in front of the groupings are cut at the same places in any case. -/
theorem ofHead_map (recases : Recases recase) (head : Text) (groupings : List Grouping) :
    ofHead (head.map recase) (groupings.map (Grouping.mapText (List.map recase))) =
      (ofHead head groupings).mapText (List.map recase) := by
  have filtered (text : Text) :
      (if (text.map recase).isEmpty then none else some (text.map recase)) =
        (if text.isEmpty then none else some text).map (List.map recase) := by
    cases text <;> rfl
  rw [ofHead, ofHead, Separator.cut?_map recases]
  cases Separator.orderBy.cut? head with
  | none => simp only [Option.map_none, Text.trim_map recases, filtered, mapText]
  | some found =>
      simp only [Option.map_some, Prod.map, Text.trim_map recases, filtered, mapText]

/-- **A query in another case** has the outline of the query in that case. -/
theorem ofQuery_map (recases : Recases recase) (query : Text) :
    ofQuery (query.map recase) = (ofQuery query).mapText (List.map recase) := by
  have blank : recase ' ' = ' ' := recases.apply_eq rfl
  have padded : ' ' :: (query.map recase ++ [' ']) = (' ' :: (query ++ [' '])).map recase := by
    rw [List.map_cons, List.map_append, List.map_singleton, blank]
  rw [ofQuery, ofQuery, padded, Separator.cut?_map recases]
  cases Separator.groupBy.cut? (' ' :: (query ++ [' '])) with
  | none => exact ofHead_map recases _ []
  | some found =>
      have listed := Grouping.ofList_map recases found.2
      simp only [Option.map_some, Prod.map, listed]
      exact ofHead_map recases _ _

/-- **The letter case of a query changes no cut.** In upper case and in lower case a query has its
own outline in that case, and queries that differ in case only have outlines that differ in case
only. -/
theorem ofQuery_letterCase (query : Text) :
    ofQuery (query.map Char.toUpper) = (ofQuery query).mapText (List.map Char.toUpper) ∧
      ofQuery (query.map Char.toLower) = (ofQuery query).mapText (List.map Char.toLower) ∧
      ∀ other : Text, other.map Char.toUpper = query.map Char.toUpper →
        (ofQuery other).mapText (List.map Char.toUpper) =
          (ofQuery query).mapText (List.map Char.toUpper) := by
  refine ⟨ofQuery_map recases_toUpper query, ofQuery_map recases_toLower query, ?_⟩
  intro other same
  rw [← ofQuery_map recases_toUpper, same, ofQuery_map recases_toUpper]

/-- Separators and a label word, also one with a long s, in two ways of writing them. -/
theorem ofQuery_letterCase_mixed :
    let query := "#a order by @b Group By #c aſ 'x', d As 'É y'".toList
    let other := "#A Order BY @B gROUP bY #c Aſ 'X', D aS 'É Y'".toList
    other.map Char.toUpper = query.map Char.toUpper ∧
      (ofQuery other).mapText (List.map Char.toUpper) =
        (ofQuery query).mapText (List.map Char.toUpper) ∧
      (ofQuery query).mapText (List.map Char.toUpper) =
        { filter := some "#A".toList
          order := some "@B".toList
          groupings := [⟨"#C".toList, some "X".toList⟩, ⟨"D".toList, some "É Y".toList⟩] } := by
  intro query other
  have same : other.map Char.toUpper = query.map Char.toUpper := by decide +kernel
  exact ⟨same, (ofQuery_letterCase query).2.2 other same, by decide +kernel⟩

end Outline

end NoteQuery
