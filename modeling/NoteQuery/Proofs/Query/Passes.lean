import NoteQuery.Proofs.Query.Phases

/-! # The passes of compiling a query

Compiling a query is a sequence of passes, each of which scans a text that the passes before it made
of a clause: the clause itself, the clause between the passes for tags, behind them, and between the
passes for attributes (`Descriptor.Receives`). A query is compiled exactly when no pass fails
(`Descriptor.exists_compile_eq_ok_iff`), and its records are those of the passes.
-/

namespace NoteQuery

variable {Record : Type}

namespace Phase

/-- The texts that the two passes over a clause receive, when placeholders are counted from `next`.
The second pass takes place only when the first one reaches the end. -/
inductive Receives (phase : Phase Record) (clause : Text) (next : Nat) :
    Spelling → Text → Prop where
  | plain : Receives phase clause next .plain clause
  | bracketed (unfailed : (phase.scan .plain clause).failure = none) :
      Receives phase clause next .bracketed (phase.halfway clause next)

/-- The texts that the passes over some parts of a query receive. Those over a part take place only
when the passes over all parts in front of it reach the end. -/
inductive ReceivesFrom (phase : Phase Record) :
    Nat → List (QueryPart × Text) → QueryPart → Spelling → Text → Prop where
  | here {next : Nat} {part : QueryPart} {clause : Text} {rest : List (QueryPart × Text)}
      {spelling : Spelling} {text : Text} (received : phase.Receives clause next spelling text) :
      ReceivesFrom phase next ((part, clause) :: rest) part spelling text
  | later {next : Nat} {earlier part : QueryPart} {clause : Text} {rest : List (QueryPart × Text)}
      {spelling : Spelling} {text : Text} (completes : phase.Completes clause next)
      (received : ReceivesFrom phase (next + (phase.added clause next).length) rest part spelling
        text) :
      ReceivesFrom phase next ((earlier, clause) :: rest) part spelling text

variable {phase : Phase Record} {clause text : Text} {next : Nat} {spelling : Spelling}
  {known : List Record} {parts : List (QueryPart × Text)} {part : QueryPart} {error : QueryError}

/-- When both passes reach the end, none of them fails. -/
theorem Receives.unfailed (received : phase.Receives clause next spelling text)
    (completes : phase.Completes clause next) : (phase.scan spelling text).failure = none := by
  cases received with
  | plain => exact completes.1
  | bracketed => exact completes.2

theorem Receives.only {kinds : List Placeholder}
    (received : phase.Receives clause next spelling text) (only : OnlyPlaceholders kinds clause)
    (member : phase.kind ∈ kinds) : OnlyPlaceholders kinds text := by
  cases received with
  | plain => exact only
  | bracketed unfailed => exact only_numbered only member unfailed

/-- An extraction fails because a pass does. -/
theorem exists_failure_of_extractor
    (failed : (phase.extractor clause known).clause = .error error) :
    ∃ spelling text, phase.Receives clause known.length spelling text ∧
      (phase.scan spelling text).failure = some error := by
  cases first : (phase.scan .plain clause).failure with
  | some found =>
      simp only [extractor, Extraction.andThen, Extraction.ofScan, first, Except.error.injEq]
        at failed
      exact ⟨.plain, clause, .plain, failed ▸ first⟩
  | none =>
      have counted : (known ++ Piece.records (phase.scan .plain clause).pieces).length =
          known.length + (Piece.records (phase.scan .plain clause).pieces).length :=
        List.length_append
      cases second : (phase.scan .bracketed (phase.halfway clause known.length)).failure with
      | some found =>
          have same : found = error := by
            rw [halfway] at second
            simpa [extractor, Extraction.andThen, Extraction.ofScan, first, second] using failed
          exact ⟨.bracketed, _, .bracketed first, same ▸ second⟩
      | none =>
          have ok : phase.extractor clause known = ⟨.ok _, _⟩ :=
            extractor_eq_ok_iff.mpr ⟨⟨first, second⟩, rfl, rfl⟩
          rw [ok] at failed
          cases failed

/-- Parts cannot be rewritten because the first one cannot or the others cannot. -/
theorem onParts_cons_eq_error {rest : List (QueryPart × Text)}
    (failed : phase.extractor.onParts ((part, clause) :: rest) known = .error error) :
    (∃ found, (phase.extractor clause known).clause = .error found ∧ error = found.inPart part) ∨
      phase.Completes clause known.length ∧
        phase.extractor.onParts rest (known ++ phase.added clause known.length) =
          .error error := by
  unfold Extractor.onParts Extractor.onClause at failed
  cases extracted : phase.extractor clause known with
  | mk outcome records =>
      cases outcome with
      | error found =>
          rw [extracted] at failed
          cases failed
          exact .inl ⟨found, rfl, rfl⟩
      | ok text =>
          obtain ⟨completes, rfl, rfl⟩ := extractor_eq_ok_iff.mp extracted
          rw [extracted] at failed
          dsimp only at failed
          split at failed
          · rename_i other later
            cases failed
            exact .inr ⟨completes, later⟩
          · cases failed

/-- Parts cannot be rewritten because a pass over one of them fails. -/
theorem exists_failure_of_onParts (failed : phase.extractor.onParts parts known = .error error) :
    ∃ spelling text found, phase.ReceivesFrom known.length parts error.part spelling text ∧
      (phase.scan spelling text).failure = some found ∧ error = found.inPart error.part := by
  induction parts generalizing known with
  | nil => cases failed
  | cons first rest ih =>
      obtain ⟨part, clause⟩ := first
      rcases onParts_cons_eq_error failed with ⟨found, refused, rfl⟩ | ⟨completes, later⟩
      · obtain ⟨spelling, text, received, failed⟩ := exists_failure_of_extractor refused
        exact ⟨spelling, text, found, .here received, failed, rfl⟩
      · obtain ⟨spelling, text, found, received, failed, same⟩ := ih later
        rw [List.length_append] at received
        exact ⟨spelling, text, found, .later completes received, failed, same⟩

/-- When parts were rewritten, no pass over them failed. -/
theorem ReceivesFrom.unfailed (received : phase.ReceivesFrom next parts part spelling text)
    {result : List (QueryPart × Text) × List Record}
    (ok : phase.extractor.onParts parts known = .ok result) (counted : known.length = next) :
    (phase.scan spelling text).failure = none := by
  induction received generalizing known result with
  | here received =>
      subst counted
      exact received.unfailed (onParts_cons_eq_ok ok).1
  | later _ _ ih =>
      subst counted
      obtain ⟨_, more, _, later⟩ := onParts_cons_eq_ok ok
      exact ih later List.length_append

/-- The records that the two passes over a clause add. -/
theorem mem_added_iff {record : Record} (completes : phase.Completes clause next) :
    record ∈ phase.added clause next ↔ ∃ spelling text, phase.Receives clause next spelling text ∧
      record ∈ Piece.records (phase.scan spelling text).pieces := by
  rw [added, List.mem_append]
  constructor
  · rintro (first | second)
    · exact ⟨.plain, clause, .plain, first⟩
    · exact ⟨.bracketed, _, .bracketed completes.1, second⟩
  · rintro ⟨_, _, received, member⟩
    cases received with
    | plain => exact .inl member
    | bracketed => exact .inr member

/-- What an extraction adds was read by one of its passes. -/
theorem exists_receives_of_extractor {added : List Record} {record : Record}
    (extracted : phase.extractor clause known = ⟨.ok text, known ++ added⟩)
    (member : record ∈ added) :
    ∃ spelling received, phase.Receives clause known.length spelling received ∧
      record ∈ Piece.records (phase.scan spelling received).pieces := by
  obtain ⟨completes, _, same⟩ := extractor_eq_ok_iff.mp extracted
  rw [List.append_cancel_left same] at member
  exact (mem_added_iff completes).mp member

/-- The records behind the rewriting of parts are those known before and those of the passes. -/
theorem mem_onParts_iff {record : Record} {result : List (QueryPart × Text) × List Record}
    (ok : phase.extractor.onParts parts known = .ok result) :
    record ∈ result.2 ↔ record ∈ known ∨
      ∃ part spelling text, phase.ReceivesFrom known.length parts part spelling text ∧
        record ∈ Piece.records (phase.scan spelling text).pieces := by
  induction parts generalizing known result with
  | nil =>
      cases ok
      simp only [iff_self_or]
      rintro ⟨_, _, _, received, _⟩
      cases received
  | cons first rest ih =>
      obtain ⟨part, clause⟩ := first
      obtain ⟨completes, more, _, later⟩ := onParts_cons_eq_ok ok
      have behind := ih later
      dsimp only at behind
      rw [behind, List.mem_append, mem_added_iff completes, List.length_append, or_assoc]
      refine or_congr_right ⟨?_, ?_⟩
      · rintro (⟨spelling, text, received, member⟩ | ⟨part, spelling, text, received, member⟩)
        · exact ⟨_, spelling, text, .here received, member⟩
        · exact ⟨part, spelling, text, .later completes received, member⟩
      · rintro ⟨part, spelling, text, received, member⟩
        cases received with
        | here received => exact .inl ⟨spelling, text, received, member⟩
        | later _ received => exact .inr ⟨part, spelling, text, received, member⟩

/-- A pass over a part receives a text made of its clause. -/
theorem ReceivesFrom.exists_mem (received : phase.ReceivesFrom next parts part spelling text) :
    ∃ clause next, (part, clause) ∈ parts ∧ phase.Receives clause next spelling text := by
  induction received with
  | here received => exact ⟨_, _, List.mem_cons_self, received⟩
  | later _ _ ih =>
      obtain ⟨clause, next, member, received⟩ := ih
      exact ⟨clause, next, List.mem_cons_of_mem _ member, received⟩

/-- A rewritten part is what both passes made of its clause. -/
theorem exists_mem_of_onParts {result : List (QueryPart × Text) × List Record}
    (ok : phase.extractor.onParts parts known = .ok result) (member : (part, text) ∈ result.1) :
    ∃ clause next, (part, clause) ∈ parts ∧ phase.Completes clause next ∧
      text = phase.rewritten clause next := by
  induction parts generalizing known result with
  | nil =>
      cases ok
      cases member
  | cons first rest ih =>
      obtain ⟨earlier, clause⟩ := first
      obtain ⟨completes, more, rewritten, later⟩ := onParts_cons_eq_ok ok
      rw [rewritten, List.mem_cons] at member
      rcases member with same | behind
      · cases same
        exact ⟨clause, known.length, List.mem_cons_self, completes, rfl⟩
      · obtain ⟨clause, next, member, completes, same⟩ := ih later behind
        exact ⟨clause, next, List.mem_cons_of_mem _ member, completes, same⟩

end Phase

namespace Descriptor

/-- The texts that the passes over a part of a query receive when it is compiled. The attributes are
extracted only when the tags of all parts were. -/
inductive Receives (query : Text) (part : QueryPart) : Placeholder → Spelling → Text → Prop where
  | tags {spelling : Spelling} {text : Text}
      (received : TagReference.phase.ReceivesFrom 0 (Outline.ofQuery query).parts part spelling
        text) :
      Receives query part .tag spelling text
  | attributes {tagged : List (QueryPart × Text)} {tags : List TagReference} {spelling : Spelling}
      {text : Text}
      (extracted : Extractor.onParts TagReference.extract (Outline.ofQuery query).parts [] =
        .ok (tagged, tags))
      (received : AttributeReference.phase.ReceivesFrom 0 tagged part spelling text) :
      Receives query part .attribute spelling text

/-- The error that ends a pass over a text, if there is one. -/
def passFailure (kind : Placeholder) (spelling : Spelling) (text : Text) : Option QueryError :=
  match kind with
  | .tag => (TagReference.scan spelling text).failure
  | .attribute => (AttributeReference.scan spelling text).failure
  | .expression => none

variable {query text : Text} {part : QueryPart} {kind : Placeholder} {spelling : Spelling}
  {error : QueryError} {descriptor : Descriptor}

/-- A pass for tags receives a text that the tag phase makes of a clause. -/
theorem Receives.exists_clause_of_tag (received : Receives query part .tag spelling text) :
    ∃ clause next, clause ∈ (Outline.ofQuery query).clauses ∧
      TagReference.phase.Receives clause next spelling text := by
  cases received with
  | tags received =>
      obtain ⟨clause, next, member, received⟩ := received.exists_mem
      refine ⟨clause, next, ?_, received⟩
      rw [← Outline.map_snd_parts]
      exact List.mem_map_of_mem member

/-- A pass for attributes receives a text that the attribute phase makes of a clause behind the tag
phase. -/
theorem Receives.exists_clause_of_attribute
    (received : Receives query part .attribute spelling text) :
    ∃ clause tags attributes, clause ∈ (Outline.ofQuery query).clauses ∧
      TagReference.phase.Completes clause tags ∧
      AttributeReference.phase.Receives (TagReference.phase.rewritten clause tags) attributes
        spelling text := by
  cases received with
  | attributes extracted received =>
      obtain ⟨_, attributes, member, received⟩ := received.exists_mem
      rw [← TagReference.extractor_phase] at extracted
      obtain ⟨clause, tags, inside, completes, rfl⟩ := Phase.exists_mem_of_onParts extracted member
      refine ⟨clause, tags, attributes, ?_, completes, received⟩
      rw [← Outline.map_snd_parts]
      exact List.mem_map_of_mem inside

/-- A query is refused because of the error that ends a pass over one of its parts. -/
theorem exists_passFailure_of_compile (failed : compile query = .error error) :
    ∃ kind spelling text found, Receives query error.part kind spelling text ∧
      passFailure kind spelling text = some found ∧ error = found.inPart error.part := by
  have parts := compile_parts query
  rw [failed, ← TagReference.extractor_phase, ← AttributeReference.extractor_phase] at parts
  cases tagged : TagReference.phase.extractor.onParts (Outline.ofQuery query).parts [] with
  | error other =>
      rw [tagged] at parts
      cases parts
      obtain ⟨spelling, text, found, received, failed, same⟩ :=
        Phase.exists_failure_of_onParts tagged
      exact ⟨.tag, spelling, text, found, .tags received, failed, same⟩
  | ok first =>
      rw [tagged] at parts
      simp only [bind, Except.bind] at parts
      cases attributed : AttributeReference.phase.extractor.onParts first.1 [] with
      | error other =>
          rw [attributed] at parts
          cases parts
          obtain ⟨spelling, text, found, received, failed, same⟩ :=
            Phase.exists_failure_of_onParts attributed
          exact ⟨.attribute, spelling, text, found, .attributes tagged received, failed, same⟩
      | ok second =>
          rw [attributed] at parts
          cases parts

/-- When a query was compiled, no pass over a part of it failed. -/
theorem Receives.passFailure_eq_none (received : Receives query part kind spelling text)
    (compiled : compile query = .ok descriptor) : passFailure kind spelling text = none := by
  obtain ⟨tagged, tags, attributes⟩ := phases_of_compile compiled
  cases received with
  | tags received => exact received.unfailed tags rfl
  | attributes extracted received =>
      rw [TagReference.extractor_phase, extracted] at tags
      cases tags
      exact received.unfailed attributes rfl

/-- **A query is compiled exactly when no pass fails.** -/
theorem exists_compile_eq_ok_iff :
    (∃ descriptor, compile query = .ok descriptor) ↔
      ∀ part kind spelling text, Receives query part kind spelling text →
        passFailure kind spelling text = none := by
  constructor
  · rintro ⟨descriptor, compiled⟩ part kind spelling text received
    exact received.passFailure_eq_none compiled
  · intro unfailed
    cases compiled : compile query with
    | ok descriptor => exact ⟨descriptor, rfl⟩
    | error error =>
        obtain ⟨kind, spelling, text, found, received, failed, _⟩ :=
          exists_passFailure_of_compile compiled
        rw [unfailed _ _ _ _ received] at failed
        cases failed

/-- The tag records of a compiled query are those of the passes for tags. -/
theorem mem_tagReferences_iff {tag : TagReference} (compiled : compile query = .ok descriptor) :
    tag ∈ descriptor.tagReferences ↔ ∃ part spelling text, Receives query part .tag spelling text ∧
      tag ∈ Piece.records (TagReference.scan spelling text).pieces := by
  obtain ⟨tagged, tags, _⟩ := phases_of_compile compiled
  rw [Phase.mem_onParts_iff tags]
  simp only [List.not_mem_nil, false_or]
  constructor
  · rintro ⟨part, spelling, text, received, member⟩
    exact ⟨part, spelling, text, .tags received, member⟩
  · rintro ⟨part, spelling, text, received, member⟩
    cases received with
    | tags received => exact ⟨part, spelling, text, received, member⟩

/-- The attribute records of a compiled query are those of the passes for attributes. -/
theorem mem_attributeReferences_iff {reference : AttributeReference}
    (compiled : compile query = .ok descriptor) :
    reference ∈ descriptor.attributeReferences ↔
      ∃ part spelling text, Receives query part .attribute spelling text ∧
        reference ∈ Piece.records (AttributeReference.scan spelling text).pieces := by
  obtain ⟨tagged, tags, attributes⟩ := phases_of_compile compiled
  rw [Phase.mem_onParts_iff attributes]
  simp only [List.not_mem_nil, false_or]
  constructor
  · rintro ⟨part, spelling, text, received, member⟩
    exact ⟨part, spelling, text, .attributes tags received, member⟩
  · rintro ⟨part, spelling, text, received, member⟩
    cases received with
    | attributes extracted received =>
        rw [TagReference.extractor_phase, extracted] at tags
        cases tags
        exact ⟨part, spelling, text, received, member⟩

end Descriptor

end NoteQuery
