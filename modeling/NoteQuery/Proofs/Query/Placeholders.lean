import Mathlib.Data.List.Nodup
import NoteQuery.Proofs.Query.Clauses
import NoteQuery.Proofs.Query.Phases

/-! # Placeholders and records

In a compiled query the placeholders refer to records, none stands twice, and their numbers grow
from clause to clause, unless the query itself holds a text like `{tag`
(`Descriptor.ascending_of_compile`). A record keeps its placeholder exactly as long as no reference
that was replaced later enclosed it (`Descriptor.complete_iff`).
-/

namespace NoteQuery

namespace Placeholder

/-- The numbers of the placeholders of one kind are those of records: each is smaller than `count`,
none stands twice, and they grow from clause to clause. -/
structure Ascending (kind : Placeholder) (count : Nat) (clauses : List Text) : Prop where
  bounded : ∀ clause ∈ clauses, ∀ number ∈ kind.numbers clause, number < count
  nodup : (clauses.flatMap kind.numbers).Nodup
  ascending : clauses.Pairwise fun earlier later =>
    ∀ first ∈ kind.numbers earlier, ∀ second ∈ kind.numbers later, first < second

/-- The numerals of clauses are among those of consecutive stretches of numbers. -/
inductive Fills (kind : Placeholder) : Nat → List Text → Nat → Prop where
  | nil (next : Nat) : Fills kind next [] next
  | cons {clause : Text} {rest : List Text} {next size high : Nat}
      (inside : ∀ numeral, (kind.numerals clause).count numeral ≤
        ((List.range' next size).map Text.ofNat).count numeral)
      (later : Fills kind (next + size) rest high) : Fills kind next (clause :: rest) high

variable {kind : Placeholder} {clause : Text} {clauses : List Text} {next size high number : Nat}

/-- The numbers of a clause whose numerals are those of a stretch lie in the stretch. -/
theorem mem_numbers_of_inside
    (inside : ∀ numeral, (kind.numerals clause).count numeral ≤
      ((List.range' next size).map Text.ofNat).count numeral)
    (member : number ∈ kind.numbers clause) : next ≤ number ∧ number < next + size := by
  obtain ⟨numeral, stands, rfl⟩ := List.mem_map.mp member
  have counted := Nat.lt_of_lt_of_le (List.count_pos_iff.mpr stands) (inside numeral)
  obtain ⟨number, ranged, rfl⟩ := List.mem_map.mp (List.count_pos_iff.mp counted)
  rw [Text.ofNat, Nat.ofDigitChars_ten_toDigits]
  exact List.mem_range'_1.mp ranged

/-- A clause whose numerals are those of a stretch repeats none of them. -/
theorem nodup_numbers_of_inside
    (inside : ∀ numeral, (kind.numerals clause).count numeral ≤
      ((List.range' next size).map Text.ofNat).count numeral) :
    (kind.numbers clause).Nodup := by
  have ranged : ((List.range' next size).map Text.ofNat).Nodup :=
    List.Nodup.map ofNat_injective List.nodup_range'
  have numerals : (kind.numerals clause).Nodup := by
    rw [List.nodup_iff_count_le_one]
    intro numeral
    exact (inside numeral).trans (List.nodup_iff_count_le_one.mp ranged numeral)
  refine numerals.map_on ?_
  intro first member second member' same
  have written {numeral : Text} (stands : numeral ∈ kind.numerals clause) :
      ∃ number, Text.ofNat number = numeral := by
    have counted := Nat.lt_of_lt_of_le (List.count_pos_iff.mpr stands) (inside numeral)
    obtain ⟨number, _, same⟩ := List.mem_map.mp (List.count_pos_iff.mp counted)
    exact ⟨number, same⟩
  obtain ⟨number, rfl⟩ := written member
  obtain ⟨other, rfl⟩ := written member'
  simp only [Text.ofNat, Nat.ofDigitChars_ten_toDigits] at same
  rw [same]

theorem Fills.le (fills : Fills kind next clauses high) : next ≤ high := by
  induction fills with
  | nil => exact Nat.le_refl _
  | cons _ _ ih => omega

/-- The numbers of clauses that fill a stretch lie in it. -/
theorem Fills.mem_numbers (fills : Fills kind next clauses high) (member : clause ∈ clauses)
    (stands : number ∈ kind.numbers clause) : next ≤ number ∧ number < high := by
  induction fills with
  | nil => cases member
  | @cons _ _ next size high inside later ih =>
      rcases List.mem_cons.mp member with rfl | member
      · have range := mem_numbers_of_inside inside stands
        have higher := later.le
        omega
      · have range := ih member
        omega

/-- Clauses that fill a stretch use ascending numbers. -/
theorem Fills.ascending (fills : Fills kind next clauses high) :
    kind.Ascending high clauses := by
  induction fills with
  | nil => exact ⟨by simp, by simp, .nil⟩
  | @cons clause rest next size high inside later ih =>
      refine ⟨?_, ?_, ?_⟩
      · intro other member number stands
        exact ((Fills.cons inside later).mem_numbers member stands).2
      · rw [List.flatMap_cons]
        refine List.Nodup.append (nodup_numbers_of_inside inside) ih.nodup ?_
        intro number here there
        obtain ⟨other, member, stands⟩ := List.mem_flatMap.mp there
        have low := mem_numbers_of_inside inside here
        have high := later.mem_numbers member stands
        omega
      · refine .cons ?_ ih.ascending
        intro other member first here second there
        have low := mem_numbers_of_inside inside here
        have high := later.mem_numbers member there
        omega

end Placeholder

namespace Phase

variable {Record : Type} {phase : Phase Record} {watched : Placeholder} {low high : Nat}
  {known : List Record} {parts : List (QueryPart × Text)}
  {result : List (QueryPart × Text) × List Record}

/-- Clauses without placeholders of the kind of a phase are filled with it by the phase. -/
theorem fills_onParts (ok : phase.extractor.onParts parts known = .ok result)
    (absent : ∀ clause ∈ parts.map Prod.snd, phase.kind.numerals clause = []) :
    phase.kind.Fills known.length (result.1.map Prod.snd) result.2.length := by
  induction parts generalizing known result with
  | nil =>
      cases ok
      exact .nil _
  | cons part rest ih =>
      obtain ⟨completes, more, rewritten, later⟩ := onParts_cons_eq_ok ok
      have behind := ih later fun clause member => absent clause (List.mem_cons_of_mem _ member)
      rw [List.length_append] at behind
      rw [rewritten]
      refine .cons ?_ behind
      intro numeral
      have balance := count_rewritten completes phase.kind numeral
      rw [absent part.2 (by simp), if_pos rfl, List.count_nil] at balance
      dsimp only
      omega

/-- A phase of another kind removes placeholders and adds none. -/
theorem fills_onParts_of_ne (ok : phase.extractor.onParts parts known = .ok result)
    (other : phase.kind ≠ watched) (fills : watched.Fills low (parts.map Prod.snd) high) :
    watched.Fills low (result.1.map Prod.snd) high := by
  induction parts generalizing known result low with
  | nil =>
      cases ok
      exact fills
  | cons part rest ih =>
      obtain ⟨completes, more, rewritten, later⟩ := onParts_cons_eq_ok ok
      cases fills with
      | @cons _ _ _ size _ inside fills =>
          have bound (numeral : Text) :
              (watched.numerals (phase.rewritten part.2 known.length)).count numeral ≤
                ((List.range' low size).map Text.ofNat).count numeral := by
            have balance := count_rewritten completes watched numeral
            have earlier := inside numeral
            rw [if_neg other] at balance
            omega
          rw [rewritten]
          exact .cons bound (ih later fills)

/-- A phase adds no placeholders but its own. -/
theorem numerals_onParts_of_ne (ok : phase.extractor.onParts parts known = .ok result)
    (other : phase.kind ≠ watched)
    (absent : ∀ clause ∈ parts.map Prod.snd, watched.numerals clause = []) :
    ∀ clause ∈ result.1.map Prod.snd, watched.numerals clause = [] := by
  intro clause member
  rw [List.eq_nil_iff_forall_not_mem]
  intro numeral stands
  have balance := count_onParts ok watched numeral
  have none : (parts.map Prod.snd).flatMap watched.numerals = [] :=
    List.flatMap_eq_nil_iff.mpr absent
  have some : 0 < ((result.1.map Prod.snd).flatMap watched.numerals).count numeral :=
    List.count_pos_iff.mpr (List.mem_flatMap.mpr ⟨clause, member, stands⟩)
  rw [none, if_neg other, List.count_nil] at balance
  omega

end Phase

namespace Descriptor

/-- The number of records that placeholders of a kind refer to in a compiled query. -/
def recordCount (descriptor : Descriptor) : Placeholder → Nat
  | .tag => descriptor.tagReferences.length
  | .attribute => descriptor.attributeReferences.length
  | .expression => 0

variable {query : Text} {descriptor : Descriptor}

/-- Clauses have no placeholder of which the query does not even hold the start. -/
theorem numerals_eq_nil_of_query {kind : Placeholder} (absent : ¬ ('{' :: kind.word) <:+: query) :
    ∀ clause ∈ (Outline.ofQuery query).parts.map Prod.snd, kind.numerals clause = [] := by
  intro clause member
  rw [Outline.map_snd_parts] at member
  refine Placeholder.numerals_eq_nil fun within => absent ?_
  refine Outline.infix_query_of_mem_clauses member within (List.cons_ne_nil _ _) ?_
  cases kind <;> decide

/-- **Placeholders are sound.** In a compiled query whose text opens no placeholder, every
placeholder is that of a record, none stands twice, and the numbers grow from clause to clause. -/
theorem ascending_of_compile (compiled : compile query = .ok descriptor)
    (untagged : ¬ ('{' :: Placeholder.tag.word) <:+: query)
    (unattributed : ¬ ('{' :: Placeholder.attribute.word) <:+: query) :
    Placeholder.tag.Ascending descriptor.tagReferences.length descriptor.clauses ∧
      Placeholder.attribute.Ascending descriptor.attributeReferences.length
        descriptor.clauses := by
  obtain ⟨tagged, tags, attributes⟩ := phases_of_compile compiled
  rw [← Outline.map_snd_parts]
  constructor
  · have filled := Phase.fills_onParts tags (numerals_eq_nil_of_query untagged)
    exact (Phase.fills_onParts_of_ne attributes (by decide) filled).ascending
  · have absent : ∀ clause ∈ tagged.map Prod.snd, Placeholder.attribute.numerals clause = [] :=
      Phase.numerals_onParts_of_ne tags (by decide) (numerals_eq_nil_of_query unattributed)
    exact (Phase.fills_onParts attributes absent).ascending

/-- Data filters, tag filters, an order and groupings leave the placeholders in order. -/
theorem ascending_of_compile_note :
    ∃ descriptor, compile "#A{.x} @b.On(C) ORDER BY @d, #e GROUP BY @[f g], #H".toList =
        .ok descriptor ∧
      Placeholder.tag.Ascending descriptor.tagReferences.length descriptor.clauses ∧
      Placeholder.attribute.Ascending descriptor.attributeReferences.length descriptor.clauses := by
  have succeeds : (compile "#A{.x} @b.On(C) ORDER BY @d, #e GROUP BY @[f g], #H".toList).isOk := by
    decide +kernel
  cases compiled : compile "#A{.x} @b.On(C) ORDER BY @d, #e GROUP BY @[f g], #H".toList with
  | error error =>
      rw [compiled] at succeeds
      cases succeeds
  | ok descriptor =>
      exact ⟨descriptor, rfl, ascending_of_compile compiled (by decide) (by decide)⟩

end Descriptor

/-- The number of times that a placeholder stands in some texts. -/
def Placeholder.occurrences (kind : Placeholder) (number : Nat) (texts : List Text) : Nat :=
  (texts.flatMap kind.numerals).count (Text.ofNat number)

theorem Placeholder.occurrences_append (kind : Placeholder) (number : Nat)
    (first second : List Text) :
    kind.occurrences number (first ++ second) =
      kind.occurrences number first + kind.occurrences number second := by
  simp [occurrences]

/-- A placeholder occurs somewhere exactly when some text holds it. -/
theorem Placeholder.occurrences_pos_iff {kind : Placeholder} {number : Nat} {texts : List Text} :
    0 < kind.occurrences number texts ↔ ∃ text ∈ texts, kind.numbered number <:+: text := by
  simp only [occurrences, List.count_pos_iff, List.mem_flatMap, numbered_infix_iff]

namespace Descriptor

/-- The references that compiling a query replaces, each as it is spelled when it is replaced:
placeholders of earlier passes may stand in it. -/
def replaced (query : Text) : List Text :=
  let parts := (Outline.ofQuery query).parts
  TagReference.phase.replacedFrom 0 (parts.map Prod.snd) ++
    match Extractor.onParts TagReference.extract parts [] with
    | .ok (tagged, _) => AttributeReference.phase.replacedFrom 0 (tagged.map Prod.snd)
    | .error _ => []

variable {query : Text} {descriptor : Descriptor}

/-- **The balance of placeholders in a query.** A placeholder that stands for a record was typed in
the query or added once; it stands in the compiled clauses or inside a replaced reference. -/
theorem occurrences_of_compile (compiled : compile query = .ok descriptor) (kind : Placeholder)
    {number : Nat} (bound : number < descriptor.recordCount kind) :
    kind.occurrences number descriptor.clauses + kind.occurrences number (replaced query) =
      kind.occurrences number (Outline.ofQuery query).clauses + 1 := by
  obtain ⟨tagged, tags, attributes⟩ := phases_of_compile compiled
  have added : ((List.range' 0 (descriptor.recordCount kind)).map Text.ofNat).count
      (Text.ofNat number) = 1 := by
    refine List.count_eq_one_of_mem
      (List.Nodup.map Placeholder.ofNat_injective List.nodup_range') ?_
    exact List.mem_map_of_mem (List.mem_range'_1.mpr ⟨Nat.zero_le _, by omega⟩)
  have first := Phase.count_onParts tags kind (Text.ofNat number)
  have second := Phase.count_onParts attributes kind (Text.ofNat number)
  simp only [replaced, ← TagReference.extractor_phase, tags, Placeholder.occurrences_append]
  rw [← Outline.map_snd_parts, ← Outline.map_snd_parts]
  simp only [Placeholder.occurrences, List.length_nil, Nat.sub_zero] at first second ⊢
  rcases kind with _ | _ | _
  · rw [if_pos (show TagReference.phase.kind = .tag from rfl)] at first
    rw [if_neg (show AttributeReference.phase.kind ≠ .tag by decide)] at second
    change List.count _ (List.map Text.ofNat (List.range' 0 descriptor.tagReferences.length)) = 1
      at added
    omega
  · rw [if_neg (show TagReference.phase.kind ≠ .attribute by decide)] at first
    rw [if_pos (show AttributeReference.phase.kind = .attribute from rfl)] at second
    change List.count _
      (List.map Text.ofNat (List.range' 0 descriptor.attributeReferences.length)) = 1 at added
    omega
  · exact absurd bound (Nat.not_lt_zero number)

/-- **No record is orphaned** exactly when no placeholder stands in more replaced references than
the query itself holds of it. -/
theorem complete_iff (compiled : compile query = .ok descriptor) :
    (∀ kind number, number < descriptor.recordCount kind →
      ∃ clause ∈ descriptor.clauses, kind.numbered number <:+: clause) ↔
    ∀ kind number, number < descriptor.recordCount kind →
      Placeholder.occurrences kind number (replaced query) ≤
        Placeholder.occurrences kind number (Outline.ofQuery query).clauses := by
  refine forall_congr' fun kind => forall_congr' fun number => forall_congr' fun bound => ?_
  have balance := occurrences_of_compile compiled kind bound
  rw [← Placeholder.occurrences_pos_iff]
  omega

/-- Tags in the tag filters of an attribute and paths in a data filter leave no orphan. -/
theorem complete_of_filtered :
    ∃ descriptor, compile "@b.On(#C) #[A]{.x}".toList = .ok descriptor ∧
      ∀ kind number, number < descriptor.recordCount kind →
        ∃ clause ∈ descriptor.clauses, kind.numbered number <:+: clause := by
  have succeeds : (compile "@b.On(#C) #[A]{.x}".toList).isOk := by decide +kernel
  have free (kind : Placeholder) :
      (replaced "@b.On(#C) #[A]{.x}".toList).flatMap kind.numerals = [] := by
    cases kind <;> decide +kernel
  cases compiled : compile "@b.On(#C) #[A]{.x}".toList with
  | error error =>
      rw [compiled] at succeeds
      cases succeeds
  | ok descriptor =>
      refine ⟨descriptor, rfl, (complete_iff compiled).mpr ?_⟩
      intro kind number _
      rw [Placeholder.occurrences, free]
      exact Nat.zero_le _

/-- A plain tag in the data filter of a tag in brackets has a record, but its placeholder goes away
with the data filter. -/
theorem orphan_in_data_filter :
    ∃ descriptor, compile "#[A]{#b}".toList = .ok descriptor ∧
      0 < descriptor.recordCount .tag ∧
      ¬ ∃ clause ∈ descriptor.clauses, Placeholder.tag.numbered 0 <:+: clause :=
  ⟨{ filter := some "{tag1}".toList
     order := none
     groupings := []
     tagReferences :=
      [⟨⟨none, "b".toList⟩, ⟨1, true, false⟩, none⟩,
        ⟨⟨none, "A".toList⟩, ⟨1, true, false⟩, some ⟨"{tag0}".toList, []⟩⟩]
     attributeReferences := [] }, by decide +kernel, by decide, by decide⟩

end Descriptor

end NoteQuery
