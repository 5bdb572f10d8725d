import NoteQuery.Proofs.Reference.Writable

/-! # A tag in two spellings

A tag whose name fits a plain spelling may also be spelled in brackets. Without tags in its data
filter this makes no difference. With tags there, the two spellings are extracted alike exactly when
attributes own all of them (`TagReference.extract_bracketed_eq_plain_iff`): any other one is
extracted from the data filter before the brackets are read, while a plain tag is read first and
takes its data filter as it stands.
-/

namespace NoteQuery

open AttributeHead (OwnedBy)
open Delimiters (braces)

/-- Text without the sign of an attribute does not change what owns the places behind it. -/
theorem AttributeHead.ownedBy_append_iff {owner : Spelling} {opening front : Text}
    (unsigned : '@' ∉ opening) : OwnedBy owner (opening ++ front) ↔ OwnedBy owner front := by
  constructor
  · rintro ⟨before, head, inside, whole, fits, free⟩
    rcases List.append_eq_append_iff.mp whole with ⟨cut, _, rfl⟩ | ⟨cut, rfl, start⟩
    · exact ⟨cut, head, inside, rfl, fits, free⟩
    · cases cut with
      | nil => exact ⟨[], head, inside, by simpa using start.symm, fits, free⟩
      | cons c cut =>
          -- The sign of the attribute would stand in front of the place.
          rw [AttributeHead.spelled, List.cons_append, List.cons_append, List.cons.injEq] at start
          exact (unsigned (by simp [← start.1])).elim
  · rintro ⟨before, head, inside, rfl, fits, free⟩
    exact ⟨opening ++ before, head, inside, by rw [List.append_assoc], fits, free⟩

theorem AttributeHead.not_ownedBy_nil (owner : Spelling) : ¬ OwnedBy owner [] := by
  rintro ⟨before, head, inside, whole, _⟩
  simp [AttributeHead.spelled] at whole

namespace TagReference

variable {spelling : Spelling} {marks body text : Text} {modifiers : TagModifiers}
  {name : QualifiedName} {known : List TagReference} {next : Nat} {c : Char}

/-- A tag with a data filter, as it is spelled in a query. -/
def spelledIn (spelling : Spelling) (marks : Text) (name : QualifiedName) (body : Text) : Text :=
  marks ++ (name.spelled spelling ++ '{' :: (body ++ ['}']))

/-- The record of such a tag. Braces that look like the placeholder of a tag are no data filter. -/
def ofSpelled (modifiers : TagModifiers) (name : QualifiedName) (body : Text) : TagReference :=
  { name, modifiers with
    filter := if Placeholder.tag.startsText ('{' :: (body ++ ['}'])) then none
      else some (.ofBody body) }

/-- What is left behind such a tag: braces that are no data filter. -/
def leftBehind (body : Text) : Text :=
  if Placeholder.tag.startsText ('{' :: (body ++ ['}'])) then '{' :: (body ++ ['}']) else []

/-- Braces that look like the placeholder of a tag hold no mark. -/
theorem unmarked_of_startsText (balanced : braces.Balanced body)
    (starts : Placeholder.tag.startsText ('{' :: (body ++ ['}'])) = true) :
    ∀ c ∈ '{' :: (body ++ ['}']), isMark c = false := by
  rw [Placeholder.startsText_eq, Option.isSome_iff_exists] at starts
  obtain ⟨numeral, read⟩ := starts
  obtain ⟨⟨rest, whole⟩, _, digits⟩ := Placeholder.read?_eq_some_iff.mp read
  -- The brace that closes the placeholder is the last one, since both close the same brace.
  have closed : DataFilter.close? 0 (body ++ ['}']) = some (body, []) :=
    DataFilter.close?_of_closes balanced []
  rw [(List.cons.inj whole).2, DataFilter.close?_of_closes (balanced_word_append digits) rest,
    Option.some.injEq, Prod.mk.injEq] at closed
  intro c member
  rw [← closed.1, List.mem_cons, List.mem_append, List.mem_append, List.mem_singleton] at member
  rcases member with rfl | (word | digit) | rfl
  · rfl
  · exact Placeholder.isMark_of_isInner (Placeholder.isInner_of_mem_word word)
  · refine Placeholder.isMark_of_isInner ?_
    rw [Placeholder.isInner, digits c digit, Bool.true_or, Bool.true_or]
  · rfl

theorem unmarked_leftBehind (balanced : braces.Balanced body) :
    ∀ c ∈ leftBehind body, isMark c = false := by
  unfold leftBehind
  split
  · rename_i starts
    exact unmarked_of_startsText balanced starts
  · exact List.forall_mem_nil _

theorem leftBehind_suffix (body : Text) : leftBehind body <:+ '{' :: (body ++ ['}']) := by
  unfold leftBehind
  split
  · exact List.suffix_refl _
  · exact List.nil_suffix

/-- The pass in the spelling of a tag finds it, and nothing behind it. -/
theorem exists_scan_spelledIn (marked : TagModifiers.Marks marks modifiers)
    (fits : name.Fits spelling) (balanced : braces.Balanced body) :
    ∃ spelled, scan spelling (spelledIn spelling marks name body) =
      ⟨.reference spelled (ofSpelled modifiers name body) :: (leftBehind body).map .plain,
        none⟩ := by
  have found : (step spelling (spelledIn spelling marks name body)
      (OwnedBody.ofClause (spelledIn spelling marks name body))
      (spelledIn spelling marks name body)).found =
        .reference (ofSpelled modifiers name body) (leftBehind body) := by
    refine (found_of_marks marked fits balanced rfl).trans ?_
    rw [ofSpelled, leftBehind]
    split <;> rfl
  obtain ⟨spelled, whole⟩ : leftBehind body <:+ spelledIn spelling marks name body := by
    refine (leftBehind_suffix body).trans ?_
    rw [spelledIn, ← List.append_assoc]
    exact List.suffix_append _ _
  refine ⟨spelled, ?_⟩
  rw [scan, Scan.ofSteps_of_reference whole.symm found, Scan.ofSteps_of_plain _
    fun c member rest => found_unmarked _ _ _ (unmarked_leftBehind balanced c member) rest]
  rfl

theorem balanced_spelledIn (marked : TagModifiers.Marks marks modifiers)
    (fits : name.Fits spelling) (balanced : braces.Balanced body) :
    braces.Balanced (spelledIn spelling marks name body) := by
  have front : braces.Balanced (marks ++ name.spelled spelling) := by
    refine Delimiters.balanced_of_not_mem ?_ ?_
    · intro member
      cases isTagCharacter_of_mem marked fits member
    · intro member
      cases isTagCharacter_of_mem marked fits member
  rw [spelledIn, ← List.append_assoc]
  exact front.closes_append_iff.mpr balanced.enclosed

/-- **A tag with a data filter is extracted** as one record, when no plain tag is read before it. -/
theorem extract_spelledIn (marked : TagModifiers.Marks marks modifiers)
    (fits : name.Fits spelling) (balanced : braces.Balanced body)
    (early : spelling = .bracketed →
      Piece.records (scan .plain (spelledIn spelling marks name body)).pieces = [])
    (known : List TagReference) :
    extract (spelledIn spelling marks name body) known =
      ⟨.ok (Placeholder.tag.numbered known.length ++ leftBehind body),
        known ++ [ofSpelled modifiers name body]⟩ := by
  obtain ⟨spelled, scanned⟩ := exists_scan_spelledIn marked fits balanced
  have unread (number : Nat) :
      phase.scan .bracketed (Placeholder.tag.numbered number ++ leftBehind body) =
        ⟨(Placeholder.tag.numbered number ++ leftBehind body).map .plain, none⟩ :=
    scan_of_unmarked .bracketed (List.forall_mem_append.mpr
      ⟨fun _ => Placeholder.isMark_of_mem_numbered, unmarked_leftBehind balanced⟩)
  obtain ⟨completes, rewritten, added⟩ := Phase.passes_of_reference scanned
    (fun bracketed => ⟨failure_of_balanced (balanced_spelledIn marked fits balanced),
      early bracketed⟩) unread known.length
  rw [← extractor_phase]
  exact Phase.extractor_eq_ok_iff.mpr ⟨completes, rewritten.symm, by rw [added]⟩

/-- The pass for plain tags leaves the marks and the name of a tag in brackets as they are. -/
theorem exists_halfway_spelledIn (marked : TagModifiers.Marks marks modifiers)
    (fits : name.Fits .bracketed) (balanced : braces.Balanced body) (next : Nat) :
    ∃ rest, phase.halfway (spelledIn .bracketed marks name body) next =
      marks ++ (name.spelled .bracketed ++ rest) := by
  have unfailed : (scan .plain (spelledIn .bracketed marks name body)).failure = none :=
    failure_of_balanced (balanced_spelledIn marked fits balanced)
  have whole : Piece.sources (scan .plain (spelledIn .bracketed marks name body)).pieces =
      (marks ++ name.spelled .bracketed) ++ '{' :: (body ++ ['}']) := by
    rw [sources_scan unfailed, spelledIn, List.append_assoc]
  obtain ⟨back, pieces, _⟩ := Piece.eq_plain_of_unstarted (fun earlier spelled tag later split => by
    by_contra inside
    rw [not_le] at inside
    have read := read?_isSome_of_found (found_scan unfailed split)
    have place : Piece.sources earlier ++ (spelled ++ Piece.sources later) =
        marks ++ (name.spelled .bracketed ++ '{' :: (body ++ ['}'])) := by
      rw [← List.append_assoc marks, ← whole, split, Piece.sources_append,
        Piece.sources_cons_reference]
    rw [read?_plain_of_inside marked fits place inside] at read
    cases read) whole
  refine ⟨Piece.numbered .tag next back, ?_⟩
  rw [← List.append_assoc, ← Piece.numbered_map_plain_append, ← pieces]
  rfl

/-- The pass for tags in brackets reads the tag, whatever became of its data filter. -/
theorem records_halfway_ne_nil (marked : TagModifiers.Marks marks modifiers)
    (fits : name.Fits .bracketed) (balanced : braces.Balanced body) (next : Nat) :
    Piece.records (scan .bracketed
      (phase.halfway (spelledIn .bracketed marks name body) next)).pieces ≠ [] := by
  have unfailed : (scan .bracketed
      (phase.halfway (spelledIn .bracketed marks name body) next)).failure = none :=
    (completes_of_balanced (balanced_spelledIn marked fits balanced) next).2
  rw [ne_eq, records_eq_nil_iff unfailed]
  intro settled
  obtain ⟨rest, halfway⟩ := exists_halfway_spelledIn marked fits balanced next
  have read := read?_isSome_of_marks marked fits rest
  rw [← halfway] at read
  obtain ⟨owner, owned⟩ := settled [] _ rfl read
  exact AttributeHead.not_ownedBy_nil owner owned

/-- A tag in brackets is extracted as the plain one exactly when no plain tag is read before it. -/
theorem extract_bracketed_eq_iff (marked : TagModifiers.Marks marks modifiers)
    (fits : name.Fits .bracketed) (balanced : braces.Balanced body) (known : List TagReference) :
    extract (spelledIn .bracketed marks name body) known =
        ⟨.ok (Placeholder.tag.numbered known.length ++ leftBehind body),
          known ++ [ofSpelled modifiers name body]⟩ ↔
      Piece.records (scan .plain (spelledIn .bracketed marks name body)).pieces = [] := by
  constructor
  · intro same
    rw [← extractor_phase] at same
    have added := (Phase.extractor_eq_ok_iff.mp same).2.2
    rw [List.append_right_inj] at added
    have counted := congrArg List.length added
    have later := List.length_pos_iff.mpr
      (records_halfway_ne_nil marked fits balanced known.length)
    have both : (phase.added (spelledIn .bracketed marks name body) known.length).length =
        (Piece.records (scan .plain (spelledIn .bracketed marks name body)).pieces).length +
          (Piece.records (scan .bracketed
            (phase.halfway (spelledIn .bracketed marks name body) known.length)).pieces).length :=
      List.length_append
    rw [List.length_singleton] at counted
    exact List.length_eq_zero_iff.mp (by omega)
  · intro early
    exact extract_spelledIn marked fits balanced (fun _ => early) known

/-- A character that no tag is spelled with belongs to no tag in front of it. -/
theorem read?_isSome_concat_iff (outer : isTagCharacter c = false) :
    (read? spelling (text ++ [c])).isSome ↔ (read? spelling text).isSome := by
  constructor
  · intro read
    obtain ⟨⟨tag, behind⟩, read⟩ := Option.isSome_iff_exists.mp read
    obtain ⟨marks, whole, marked, fits⟩ := spelled_of_read? read
    rcases List.eq_nil_or_concat behind with rfl | ⟨behind, d, rfl⟩
    · have member : c ∈ marks ++ tag.toQualifiedName.spelled spelling := by
        rw [List.append_nil] at whole
        rw [← whole]
        simp
      rw [isTagCharacter_of_mem marked fits member] at outer
      cases outer
    · have split : text ++ [c] =
          (marks ++ (tag.toQualifiedName.spelled spelling ++ behind)) ++ [d] := by
        rw [whole]
        simp
      rw [(List.append_inj' split rfl).1]
      exact read?_isSome_of_marks marked fits behind
  · intro read
    obtain ⟨⟨tag, behind⟩, read⟩ := Option.isSome_iff_exists.mp read
    obtain ⟨marks, rfl, marked, fits⟩ := spelled_of_read? read
    rw [List.append_assoc, List.append_assoc]
    exact read?_isSome_of_marks marked fits (behind ++ [c])

/-- Attributes own the plain tags of a tag in brackets exactly when they own those of its data
filter. -/
theorem allOwned_spelledIn_iff (marked : TagModifiers.Marks marks modifiers)
    (fits : name.Fits .bracketed) :
    AllOwned .plain (spelledIn .bracketed marks name body) ↔ AllOwned .plain body := by
  have unsigned : '@' ∉ marks ++ name.spelled .bracketed ++ ['{'] := by
    rw [List.mem_append, List.mem_singleton, not_or]
    refine ⟨fun member => ?_, by decide⟩
    cases isTagCharacter_of_mem marked fits member
  have whole : spelledIn .bracketed marks name body =
      (marks ++ name.spelled .bracketed ++ ['{']) ++ (body ++ ['}']) := by
    simp [spelledIn]
  constructor
  · rintro settled front text rfl read
    have longer : (read? .plain (text ++ ['}'])).isSome := (read?_isSome_concat_iff rfl).mpr read
    obtain ⟨owner, owned⟩ := settled ((marks ++ name.spelled .bracketed ++ ['{']) ++ front) _
      (by rw [whole]; simp) longer
    exact ⟨owner, (AttributeHead.ownedBy_append_iff unsigned).mp owned⟩
  · intro settled front text same read
    obtain ⟨⟨tag, behind⟩, found⟩ := Option.isSome_iff_exists.mp read
    obtain ⟨sign, rest, start, signs⟩ := eq_cons_of_read? found
    by_cases inside : front.length < (marks ++ name.spelled .bracketed).length
    · rw [read?_plain_of_inside marked fits same.symm inside] at found
      cases found
    · have longer : marks ++ name.spelled .bracketed <+: front := by
        refine List.prefix_of_prefix_length_le ?_ ⟨text, same.symm⟩ (not_lt.mp inside)
        exact ⟨'{' :: (body ++ ['}']), by rw [spelledIn, List.append_assoc]⟩
      obtain ⟨more, rfl⟩ := longer
      have braced : '{' :: (body ++ ['}']) = more ++ text := by
        rw [spelledIn, ← List.append_assoc, List.append_assoc (marks ++ _)] at same
        exact List.append_cancel_left same
      cases more with
      | nil =>
          rw [List.nil_append, start, List.cons.injEq] at braced
          rcases signs with rfl | rfl <;> cases braced.1
      | cons d more =>
          rw [List.cons_append, List.cons.injEq] at braced
          obtain ⟨rfl, braced⟩ := braced
          obtain ⟨shorter, last, rfl⟩ : ∃ shorter last, text = shorter ++ [last] :=
            (List.eq_nil_or_concat' text).resolve_left (by rw [start]; exact List.cons_ne_nil _ _)
          rw [← List.append_assoc] at braced
          obtain ⟨rfl, closing⟩ := List.append_inj' braced rfl
          obtain ⟨rfl⟩ := List.cons.inj closing
          obtain ⟨owner, owned⟩ := settled more shorter rfl ((read?_isSome_concat_iff rfl).mp read)
          refine ⟨owner, ?_⟩
          rw [List.append_cons]
          exact (AttributeHead.ownedBy_append_iff unsigned).mpr owned

/-- **The two spellings of a tag are extracted alike** exactly when attributes own all plain tags in
its data filter. -/
theorem extract_bracketed_eq_plain_iff (marked : TagModifiers.Marks marks modifiers)
    (fits : name.Fits .plain) (balanced : braces.Balanced body) (known : List TagReference) :
    extract (spelledIn .bracketed marks name body) known =
        extract (spelledIn .plain marks name body) known ↔ AllOwned .plain body := by
  have plain := extract_spelledIn marked fits balanced (by rintro ⟨⟩) known
  have unfailed : (scan .plain (spelledIn .bracketed marks name body)).failure = none :=
    failure_of_balanced (balanced_spelledIn marked fits.bracketed balanced)
  rw [plain, extract_bracketed_eq_iff marked fits.bracketed balanced known,
    records_eq_nil_iff unfailed, allOwned_spelledIn_iff marked fits.bracketed]

/-- A tag that an attribute owns stays in the data filter of a tag in brackets. -/
theorem extract_bracketed_eq_plain_of_owned :
    let name : QualifiedName := ⟨some "S".toList, "a_1".toList⟩
    let body : Text := ".n > @[x y].On(~#b) \x7b\x7d".toList
    TagModifiers.Marks "~##?".toList ⟨2, false, true⟩ ∧ name.Fits .plain ∧ braces.Balanced body ∧
      AllOwned .plain body ∧
      extract (spelledIn .bracketed "~##?".toList name body) [] =
        extract (spelledIn .plain "~##?".toList name body) [] := by
  intro name body
  have marked : TagModifiers.Marks "~##?".toList ⟨2, false, true⟩ := .hashes true 1 true false
  have fits : name.Fits .plain := by decide
  have balanced : braces.Balanced body := by decide +kernel
  have owned : AllOwned .plain body :=
    (records_eq_nil_iff (failure_of_balanced balanced)).mp (by decide +kernel)
  exact ⟨marked, fits, balanced, owned,
    (extract_bracketed_eq_plain_iff marked fits balanced []).mpr owned⟩

/-- A tag that no attribute owns is taken out of the data filter of a tag in brackets. -/
theorem extract_bracketed_ne_plain :
    let name : QualifiedName := ⟨none, "A".toList⟩
    let body : Text := "#b".toList
    let tag : TagReference :=
      { space := none, name := "A".toList, searchDepth := 1, strictSearchDepth := true,
        includeOwner := false }
    TagModifiers.Marks "#".toList ⟨1, true, false⟩ ∧ name.Fits .plain ∧ braces.Balanced body ∧
      extract (spelledIn .plain "#".toList name body) [] =
        ⟨.ok "\x7btag0\x7d".toList, [{ tag with filter := some ⟨"#b".toList, []⟩ }]⟩ ∧
      extract (spelledIn .bracketed "#".toList name body) [] =
        ⟨.ok "\x7btag1\x7d".toList, [{ tag with name := "b".toList },
          { tag with filter := some ⟨"\x7btag0\x7d".toList, []⟩ }]⟩ ∧
      extract (spelledIn .bracketed "#".toList name body) [] ≠
        extract (spelledIn .plain "#".toList name body) [] := by
  intro name body tag
  have extraction {text : Text} {clause : Except QueryError Text} {records : List TagReference}
      (rewritten : (extract text []).clause = clause)
      (recorded : (extract text []).records = records) :
      extract text [] = ⟨clause, records⟩ := by
    rw [← rewritten, ← recorded]
  have plain : extract (spelledIn .plain "#".toList name body) [] =
      ⟨.ok "\x7btag0\x7d".toList, [{ tag with filter := some ⟨"#b".toList, []⟩ }]⟩ :=
    extraction (by decide +kernel) (by decide +kernel)
  have bracketed : extract (spelledIn .bracketed "#".toList name body) [] =
      ⟨.ok "\x7btag1\x7d".toList, [{ tag with name := "b".toList },
        { tag with filter := some ⟨"\x7btag0\x7d".toList, []⟩ }]⟩ :=
    extraction (by decide +kernel) (by decide +kernel)
  refine ⟨.hashes false 0 false false, by decide, by decide +kernel, plain, bracketed, ?_⟩
  rw [plain, bracketed]
  intro same
  have counted := congrArg (fun extraction => extraction.records.length) same
  cases counted

end TagReference

end NoteQuery
