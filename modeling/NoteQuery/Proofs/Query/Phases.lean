import NoteQuery.Proofs.Placeholder.Only
import NoteQuery.Proofs.Query.Parts
import NoteQuery.Proofs.Reference.Attribute
import NoteQuery.Proofs.Reference.Tag
import NoteQuery.Proofs.Scan.Balance

/-! # The two phases of compiling

The references of one sort are extracted from a clause in two passes, each of which scans the clause
as the one before it left it. A `Phase` is such a pair of scans together with what makes counting
possible: a scan that does not fail spells its clause, and what it replaces has the shape of a
reference. Over the clauses of a query a phase keeps the balance of placeholders
(`Phase.count_onParts`).
-/

namespace NoteQuery

variable {Record : Type}

/-- The scans that extract the references of one sort, in the order of their spellings. -/
structure Phase (Record : Type) where
  kind : Placeholder
  scan : Spelling → Text → Scan Record
  sources_scan : ∀ spelling clause, (scan spelling clause).failure = none →
    Piece.sources (scan spelling clause).pieces = clause
  isSpelling : ∀ spelling clause, ∀ spelled ∈ Piece.spellings (scan spelling clause).pieces,
    IsSpelling spelled

namespace Phase

variable (phase : Phase Record)

/-- The clause between the two passes, when placeholders are counted from `next`. -/
def halfway (clause : Text) (next : Nat) : Text :=
  Piece.numbered phase.kind next (phase.scan .plain clause).pieces

/-- The clause behind the two passes. -/
def rewritten (clause : Text) (next : Nat) : Text :=
  Piece.numbered phase.kind (next + (Piece.records (phase.scan .plain clause).pieces).length)
    (phase.scan .bracketed (phase.halfway clause next)).pieces

/-- The records of the references that the two passes replace. -/
def added (clause : Text) (next : Nat) : List Record :=
  Piece.records (phase.scan .plain clause).pieces ++
    Piece.records (phase.scan .bracketed (phase.halfway clause next)).pieces

/-- The references that the two passes replace, as they are spelled at that time. -/
def replaced (clause : Text) (next : Nat) : List Text :=
  Piece.spellings (phase.scan .plain clause).pieces ++
    Piece.spellings (phase.scan .bracketed (phase.halfway clause next)).pieces

/-- Whether both passes reach the end of the clause. -/
def Completes (clause : Text) (next : Nat) : Prop :=
  (phase.scan .plain clause).failure = none ∧
    (phase.scan .bracketed (phase.halfway clause next)).failure = none

/-- The references that are replaced in clauses, one after the other. -/
def replacedFrom (next : Nat) : List Text → List Text
  | [] => []
  | clause :: rest =>
      phase.replaced clause next ++ replacedFrom (next + (phase.added clause next).length) rest

/-- The extraction that consists of the two passes. -/
def extractor : Extractor Record := fun clause known =>
  (Extraction.ofScan phase.kind known (phase.scan .plain clause)).andThen fun clause known =>
    Extraction.ofScan phase.kind known (phase.scan .bracketed clause)

variable {phase} {clause text : Text} {known records : List Record}

/-- An extraction succeeds when both passes reach the end of the clause. -/
theorem extractor_eq_ok_iff :
    phase.extractor clause known = ⟨.ok text, records⟩ ↔
      phase.Completes clause known.length ∧ text = phase.rewritten clause known.length ∧
        records = known ++ phase.added clause known.length := by
  unfold extractor Extraction.andThen
  cases first : (phase.scan .plain clause).failure with
  | some error => simp [Extraction.ofScan, Completes, first]
  | none =>
      have length : (known ++ Piece.records (phase.scan .plain clause).pieces).length =
          known.length + (Piece.records (phase.scan .plain clause).pieces).length :=
        List.length_append
      simp only [Extraction.ofScan, Completes, first, true_and, length]
      change Extraction.mk _ _ = _ ↔ _
      cases second : (phase.scan .bracketed (phase.halfway clause known.length)).failure with
      | some error =>
          unfold halfway at second
          simp [second]
      | none =>
          unfold halfway at second
          simp [second, rewritten, added, halfway, eq_comm]

/-- What is known of an extraction whose clause was rewritten. -/
theorem completes_of_extractor (extracted : (phase.extractor clause known).clause = .ok text) :
    phase.Completes clause known.length ∧ text = phase.rewritten clause known.length ∧
      (phase.extractor clause known).records = known ++ phase.added clause known.length := by
  apply extractor_eq_ok_iff.mp
  rw [← extracted]

/-- A pass without records finds nothing but plain characters. -/
theorem scan_of_records_eq_nil {spelling : Spelling}
    (unfailed : (phase.scan spelling clause).failure = none)
    (empty : Piece.records (phase.scan spelling clause).pieces = []) :
    phase.scan spelling clause = ⟨clause.map .plain, none⟩ := by
  have plain := Piece.eq_map_plain_of_records empty
  rw [phase.sources_scan spelling clause unfailed] at plain
  calc phase.scan spelling clause
      = ⟨(phase.scan spelling clause).pieces, (phase.scan spelling clause).failure⟩ := rfl
    _ = ⟨clause.map .plain, none⟩ := by rw [unfailed, ← plain]

/-- A pass without records leaves the clause as it is. -/
theorem numbered_of_records_eq_nil {spelling : Spelling}
    (unfailed : (phase.scan spelling clause).failure = none)
    (empty : Piece.records (phase.scan spelling clause).pieces = []) (kind : Placeholder)
    (next : Nat) : Piece.numbered kind next (phase.scan spelling clause).pieces = clause := by
  rw [scan_of_records_eq_nil unfailed empty]
  exact Piece.numbered_map_plain kind next clause

/-- When the first pass leaves nothing to the second one, it does the work of both. -/
theorem passes_of_plain {next : Nat} (unfailed : (phase.scan .plain clause).failure = none)
    (settled : phase.scan .bracketed (phase.halfway clause next) =
      ⟨(phase.halfway clause next).map .plain, none⟩) :
    phase.Completes clause next ∧ phase.rewritten clause next = phase.halfway clause next ∧
      phase.added clause next = Piece.records (phase.scan .plain clause).pieces := by
  have later : (phase.scan .bracketed (phase.halfway clause next)).failure = none := by
    rw [settled]
  have empty : Piece.records (phase.scan .bracketed (phase.halfway clause next)).pieces = [] := by
    rw [settled, Piece.records_map_plain]
  refine ⟨⟨unfailed, later⟩, ?_, ?_⟩
  · rw [rewritten, numbered_of_records_eq_nil later empty]
  · rw [added, empty, List.append_nil]

/-- When a text is one reference that no earlier pass touches, in front of text in which nothing is
read, the two passes replace the reference and nothing else. -/
theorem passes_of_reference {spelling : Spelling} {spelled left : Text} {record : Record}
    (found : phase.scan spelling text = ⟨.reference spelled record :: left.map .plain, none⟩)
    (early : spelling = .bracketed → (phase.scan .plain text).failure = none ∧
      Piece.records (phase.scan .plain text).pieces = [])
    (unread : ∀ number, phase.scan .bracketed (phase.kind.numbered number ++ left) =
      ⟨(phase.kind.numbered number ++ left).map .plain, none⟩) (next : Nat) :
    phase.Completes text next ∧ phase.rewritten text next = phase.kind.numbered next ++ left ∧
      phase.added text next = [record] := by
  cases spelling with
  | plain =>
      have halfway : phase.halfway text next = phase.kind.numbered next ++ left := by
        rw [halfway, found, Piece.numbered, Piece.numbered_map_plain]
      obtain ⟨completes, rewritten, added⟩ :=
        passes_of_plain (by rw [found]) (by rw [halfway, unread])
      rw [halfway] at rewritten
      rw [found, Piece.records_cons_reference, Piece.records_map_plain] at added
      exact ⟨completes, rewritten, added⟩
  | bracketed =>
      obtain ⟨unfailed, none⟩ := early rfl
      have halfway : phase.halfway text next = text := numbered_of_records_eq_nil unfailed none _ _
      refine ⟨⟨unfailed, by rw [halfway, found]⟩, ?_, ?_⟩
      · rw [rewritten, halfway, none, found, Piece.numbered, Piece.numbered_map_plain]
        rfl
      · rw [added, halfway, none, found, Piece.records_cons_reference, Piece.records_map_plain]
        rfl

/-- When the whole text is one reference that no earlier pass touches, the two passes replace it by
one placeholder. -/
theorem alone_of_scan {spelling : Spelling} {record : Record}
    (found : phase.scan spelling text = ⟨[.reference text record], none⟩)
    (early : spelling = .bracketed → (phase.scan .plain text).failure = none ∧
      Piece.records (phase.scan .plain text).pieces = [])
    (placeholder : ∀ number, phase.scan .bracketed (phase.kind.numbered number) =
      ⟨(phase.kind.numbered number).map .plain, none⟩) (next : Nat) :
    phase.Completes text next ∧ phase.rewritten text next = phase.kind.numbered next ∧
      phase.added text next = [record] := by
  have passes : phase.Completes text next ∧
      phase.rewritten text next = phase.kind.numbered next ++ [] ∧
        phase.added text next = [record] :=
    passes_of_reference found early
      (fun number => by rw [List.append_nil]; exact placeholder number) next
  rwa [List.append_nil] at passes

/-- An extraction whose passes find nothing leaves a clause as it is. -/
theorem extractor_of_unread
    (scanned : ∀ spelling, phase.scan spelling clause = ⟨clause.map .plain, none⟩) :
    phase.extractor clause known = ⟨.ok clause, known⟩ := by
  have unfailed : (phase.scan .plain clause).failure = none := by rw [scanned]
  have empty : Piece.records (phase.scan .plain clause).pieces = [] := by
    rw [scanned, Piece.records_map_plain]
  have halfway : phase.halfway clause known.length = clause :=
    numbered_of_records_eq_nil unfailed empty _ _
  obtain ⟨completes, rewritten, added⟩ :=
    passes_of_plain unfailed (by rw [halfway, scanned])
  refine extractor_eq_ok_iff.mpr ⟨completes, ?_, ?_⟩
  · rw [rewritten, halfway]
  · rw [added, empty, List.append_nil]

/-- Some clause was rewritten when a part was. -/
theorem onParts_cons_eq_ok {part : QueryPart} {rest : List (QueryPart × Text)}
    {result : List (QueryPart × Text) × List Record}
    (ok : phase.extractor.onParts ((part, clause) :: rest) known = .ok result) :
    phase.Completes clause known.length ∧
      ∃ more, result.1 = (part, phase.rewritten clause known.length) :: more ∧
        phase.extractor.onParts rest (known ++ phase.added clause known.length) =
          .ok (more, result.2) := by
  unfold Extractor.onParts Extractor.onClause at ok
  cases extracted : phase.extractor clause known with
  | mk outcome records =>
      cases outcome with
      | error error =>
          rw [extracted] at ok
          cases ok
      | ok text =>
          obtain ⟨completes, rfl, rfl⟩ := extractor_eq_ok_iff.mp extracted
          rw [extracted] at ok
          dsimp only at ok
          split at ok
          · cases ok
          · rename_i more records later
            cases ok
            exact ⟨completes, more, rfl, later⟩

/-- Every clause was rewritten in both passes when the parts were. -/
theorem forall₂_onParts {parts : List (QueryPart × Text)}
    {result : List (QueryPart × Text) × List Record}
    (ok : phase.extractor.onParts parts known = .ok result) :
    List.Forall₂ (fun before after => ∃ next, phase.Completes before next ∧
      after = phase.rewritten before next) (parts.map Prod.snd) (result.1.map Prod.snd) := by
  induction parts generalizing known result with
  | nil =>
      cases ok
      exact .nil
  | cons part rest ih =>
      obtain ⟨completes, more, rewritten, later⟩ := onParts_cons_eq_ok ok
      rw [rewritten]
      exact .cons ⟨known.length, completes, rfl⟩ (ih later)

/-- A pass adds placeholders of its kind only. -/
theorem only_numbered {kinds : List Placeholder} {spelling : Spelling} {next : Nat}
    (only : OnlyPlaceholders kinds clause) (member : phase.kind ∈ kinds)
    (unfailed : (phase.scan spelling clause).failure = none) :
    OnlyPlaceholders kinds
      (Piece.numbered phase.kind next (phase.scan spelling clause).pieces) := by
  rw [← phase.sources_scan spelling clause unfailed] at only
  exact only.numbered (phase.isSpelling spelling clause) member next

theorem only_rewritten {kinds : List Placeholder} {next : Nat}
    (only : OnlyPlaceholders kinds clause) (member : phase.kind ∈ kinds)
    (completes : phase.Completes clause next) :
    OnlyPlaceholders kinds (phase.rewritten clause next) :=
  only_numbered (only_numbered only member completes.1) member completes.2

/-- Passes add records behind those known before. -/
theorem length_onParts {parts : List (QueryPart × Text)}
    {result : List (QueryPart × Text) × List Record}
    (ok : phase.extractor.onParts parts known = .ok result) :
    known.length ≤ result.2.length := by
  induction parts generalizing known result with
  | nil =>
      cases ok
      exact Nat.le_refl _
  | cons part rest ih =>
      obtain ⟨_, more, _, later⟩ := onParts_cons_eq_ok ok
      have longer := ih later
      rw [List.length_append] at longer
      dsimp only at longer
      omega

/-- **The balance of placeholders in a clause.** -/
theorem count_rewritten {next : Nat} (completes : phase.Completes clause next)
    (watched : Placeholder) (numeral : Text) :
    (watched.numerals (phase.rewritten clause next)).count numeral +
        ((phase.replaced clause next).flatMap watched.numerals).count numeral =
      (watched.numerals clause).count numeral +
        if phase.kind = watched then
          ((List.range' next (phase.added clause next).length).map Text.ofNat).count numeral
        else 0 := by
  have first := Piece.count_numerals_numbered (phase.isSpelling .plain clause) watched phase.kind
    next numeral
  have second := Piece.count_numerals_numbered
    (phase.isSpelling .bracketed (phase.halfway clause next)) watched phase.kind
    (next + (Piece.records (phase.scan .plain clause).pieces).length) numeral
  rw [phase.sources_scan .plain clause completes.1] at first
  rw [phase.sources_scan .bracketed _ completes.2] at second
  have middle : Piece.numbered phase.kind next (phase.scan .plain clause).pieces =
      phase.halfway clause next := rfl
  have last : Piece.numbered phase.kind
      (next + (Piece.records (phase.scan .plain clause).pieces).length)
      (phase.scan .bracketed (phase.halfway clause next)).pieces =
        phase.rewritten clause next := rfl
  rw [middle] at first
  rw [last] at second
  by_cases same : phase.kind = watched
  · simp only [same, ↓reduceIte] at first second ⊢
    rw [added, List.length_append, ← List.range'_append_1, List.map_append, List.count_append,
      replaced, List.flatMap_append, List.count_append]
    omega
  · simp only [same, ↓reduceIte] at first second ⊢
    rw [replaced, List.flatMap_append, List.count_append]
    omega

/-- **The balance of placeholders in the parts of a query.** -/
theorem count_onParts {parts : List (QueryPart × Text)}
    {result : List (QueryPart × Text) × List Record}
    (ok : phase.extractor.onParts parts known = .ok result) (watched : Placeholder)
    (numeral : Text) :
    ((result.1.map Prod.snd).flatMap watched.numerals).count numeral +
        ((phase.replacedFrom known.length (parts.map Prod.snd)).flatMap
          watched.numerals).count numeral =
      ((parts.map Prod.snd).flatMap watched.numerals).count numeral +
        if phase.kind = watched then
          ((List.range' known.length (result.2.length - known.length)).map
            Text.ofNat).count numeral
        else 0 := by
  induction parts generalizing known result with
  | nil =>
      cases ok
      simp [replacedFrom]
  | cons part rest ih =>
      obtain ⟨completes, more, rewritten, later⟩ := onParts_cons_eq_ok ok
      have here := count_rewritten completes watched numeral
      have behind := ih later
      have longer := length_onParts later
      rw [List.length_append] at behind longer
      dsimp only at behind longer
      rw [rewritten]
      simp only [List.map_cons, List.flatMap_cons, List.count_append, replacedFrom,
        List.flatMap_append]
      by_cases same : phase.kind = watched
      · have split : result.2.length - known.length =
            (phase.added part.2 known.length).length +
              (result.2.length - (known.length + (phase.added part.2 known.length).length)) := by
          omega
        rw [split, ← List.range'_append_1, List.map_append, List.count_append]
        simp only [same, ↓reduceIte] at here behind ⊢
        omega
      · simp only [same, ↓reduceIte] at here behind ⊢
        omega

end Phase

namespace TagReference

/-- One pass of the tag extraction over a clause. -/
def scan (spelling : Spelling) (clause : Text) : Scan TagReference :=
  .ofSteps (step spelling clause (OwnedBody.ofClause clause)) clause

/-- The extraction of tags as a phase. -/
def phase : Phase TagReference where
  kind := .tag
  scan := scan
  sources_scan _ clause unfailed := (Scan.reads_ofSteps _ clause).sources_eq unfailed
  isSpelling _ clause spelled member := by
    obtain ⟨tag, behind, found⟩ := (Scan.reads_ofSteps _ clause).reference_found member
    exact isSpelling_of_found found

theorem extractor_phase : phase.extractor = extract := rfl

end TagReference

namespace AttributeReference

/-- One pass of the attribute extraction over a clause. -/
def scan (spelling : Spelling) (clause : Text) : Scan AttributeReference :=
  .ofSteps (step spelling clause) clause

/-- The extraction of attributes as a phase. -/
def phase : Phase AttributeReference where
  kind := .attribute
  scan := scan
  sources_scan _ clause unfailed := (Scan.reads_ofSteps _ clause).sources_eq unfailed
  isSpelling _ clause spelled member := by
    obtain ⟨reference, behind, found⟩ := (Scan.reads_ofSteps _ clause).reference_found member
    exact isSpelling_of_found found

theorem extractor_phase : phase.extractor = extract := rfl

end AttributeReference

/-- A query that is compiled passes through both phases. -/
theorem Descriptor.phases_of_compile {query : Text} {descriptor : Descriptor}
    (compiled : compile query = .ok descriptor) :
    ∃ tagged, TagReference.phase.extractor.onParts (Outline.ofQuery query).parts [] =
        .ok (tagged, descriptor.tagReferences) ∧
      AttributeReference.phase.extractor.onParts tagged [] =
        .ok (descriptor.toOutline.parts, descriptor.attributeReferences) := by
  have parts := compile_parts query
  rw [compiled, ← TagReference.extractor_phase, ← AttributeReference.extractor_phase] at parts
  cases tagged : TagReference.phase.extractor.onParts (Outline.ofQuery query).parts [] with
  | error error =>
      rw [tagged] at parts
      cases parts
  | ok first =>
      rw [tagged] at parts
      simp only [bind, Except.bind] at parts
      cases attributed : AttributeReference.phase.extractor.onParts first.1 [] with
      | error error =>
          rw [attributed] at parts
          cases parts
      | ok second =>
          simp only [attributed, Except.map, pure, Except.pure, Except.ok.injEq,
            Prod.mk.injEq] at parts
          obtain ⟨clauses, tags, attributes⟩ := parts
          rw [clauses, tags, attributes]
          exact ⟨first.1, rfl, attributed⟩

end NoteQuery
