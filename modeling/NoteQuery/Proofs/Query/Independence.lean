import NoteQuery.Proofs.Query.Alike

/-! # The clauses compile independently

The clauses of a query share their lists of records, so each is compiled with its own first number
and, for the attributes, with placeholders of another width than it would have alone. Nothing but
these numbers and the positions in errors depends on that: compiling a query fails exactly when some
clause fails alone, and with the error of the first such clause (`Descriptor.compile_alone`).
-/

namespace NoteQuery

/-- Parts of queries that differ in the numbers of placeholders only. -/
def PartAlike (first second : QueryPart × Text) : Prop :=
  first.1 = second.1 ∧ first.2.Alike second.2

theorem PartAlike.refl (part : QueryPart × Text) : PartAlike part part :=
  ⟨rfl, .refl part.2⟩

/-- Two outcomes are parts that are alike or the same error in the same part, positions apart. -/
inductive PartsAlike : Except QueryError (List (QueryPart × Text)) →
    Except QueryError (List (QueryPart × Text)) → Prop where
  | ok {first second : List (QueryPart × Text)} (alike : List.Forall₂ PartAlike first second) :
      PartsAlike (.ok first) (.ok second)
  | error {first second : QueryError} (alike : first.Alike second)
      (part : first.part = second.part) : PartsAlike (.error first) (.error second)

/-- Of two alike outcomes both are successful, or neither. -/
theorem PartsAlike.exists_ok_iff {first second : Except QueryError (List (QueryPart × Text))}
    (alike : PartsAlike first second) :
    (∃ parts, first = .ok parts) ↔ ∃ parts, second = .ok parts := by
  cases alike <;> simp

namespace Extractor

variable {Record : Type} {extractor : Extractor Record}

/-- Whether an extractor looks neither at the numbers of placeholders nor at the known records. -/
def Uniform (extractor : Extractor Record) : Prop :=
  ∀ clause clause' known known', clause.Alike clause' →
    OutcomeAlike (extractor clause known).clause (extractor clause' known').clause

/-- Rewrites a part of a query as if it were the only one. -/
def alone (extractor : Extractor Record) (part : QueryPart × Text) :
    Except QueryError (QueryPart × Text) :=
  match (extractor part.2 []).clause with
  | .ok rewritten => .ok (part.1, rewritten)
  | .error error => .error (error.inPart part.1)

/-- A part that is rewritten alone keeps its place in the query. -/
theorem alone_eq_ok_iff {part after : QueryPart × Text} :
    extractor.alone part = .ok after ↔
      after.1 = part.1 ∧ (extractor part.2 []).clause = .ok after.2 := by
  obtain ⟨name, clause⟩ := part
  obtain ⟨name', text⟩ := after
  unfold alone
  cases extracted : (extractor clause []).clause with
  | error error => simp
  | ok rewritten => simp [eq_comm]

/-- A part that fails alone fails with its place in the query. -/
theorem alone_eq_error {part : QueryPart × Text} {error : QueryError}
    (failed : (extractor part.2 []).clause = .error error) :
    extractor.alone part = .error (error.inPart part.1) := by
  rw [alone, failed]

/-- Parts are rewritten alone one by one. -/
theorem mapM_alone_eq_ok_iff {parts rewritten : List (QueryPart × Text)} :
    parts.mapM extractor.alone = .ok rewritten ↔
      parts.map extractor.alone = rewritten.map .ok := by
  induction parts generalizing rewritten with
  | nil =>
      rw [List.mapM_nil, List.map_nil]
      constructor
      · intro ok
        cases ok
        rfl
      · intro same
        rw [List.map_eq_nil_iff.mp same.symm]
        rfl
  | cons part rest ih =>
      rw [List.mapM_cons, List.map_cons]
      cases here : extractor.alone part with
      | error error =>
          constructor
          · intro ok
            cases ok
          · intro same
            cases rewritten <;> cases same
      | ok after =>
          constructor
          · intro ok
            cases later : rest.mapM extractor.alone with
            | error error =>
                rw [later] at ok
                cases ok
            | ok more =>
                rw [later] at ok
                cases ok
                rw [ih.mp later, List.map_cons]
          · intro same
            obtain ⟨after', more, rfl, head, tail⟩ := List.map_eq_cons_iff.mp same.symm
            cases head
            rw [ih.mpr tail.symm]
            rfl

/-- Parts can be rewritten alone when each of them can. -/
theorem exists_mapM_alone_eq_ok {parts : List (QueryPart × Text)}
    (each : ∀ part ∈ parts, ∃ text, (extractor part.2 []).clause = .ok text) :
    ∃ rewritten, parts.mapM extractor.alone = .ok rewritten := by
  induction parts with
  | nil => exact ⟨[], rfl⟩
  | cons part rest ih =>
      obtain ⟨text, here⟩ := each part List.mem_cons_self
      obtain ⟨more, later⟩ := ih fun other member => each other (List.mem_cons_of_mem _ member)
      have first : extractor.alone part = .ok (part.1, text) := alone_eq_ok_iff.mpr ⟨rfl, here⟩
      refine ⟨(part.1, text) :: more, mapM_alone_eq_ok_iff.mpr ?_⟩
      rw [List.map_cons, List.map_cons, first, mapM_alone_eq_ok_iff.mp later]

/-- The first part that fails alone ends the rewriting of the parts alone. -/
theorem mapM_alone_eq_error {before after : List (QueryPart × Text)} {part : QueryPart}
    {clause : Text} {error : QueryError}
    (earlier : ∀ other ∈ before, ∃ text, (extractor other.2 []).clause = .ok text)
    (failed : (extractor clause []).clause = .error error) :
    (before ++ (part, clause) :: after).mapM extractor.alone = .error (error.inPart part) := by
  obtain ⟨rewritten, ok⟩ := exists_mapM_alone_eq_ok earlier
  rw [List.mapM_append, List.mapM_cons, ok, alone_eq_error failed]
  rfl

/-- A part is rewritten in a query as it is rewritten alone. -/
theorem Uniform.onClause_alike (uniform : extractor.Uniform) {first second : QueryPart × Text}
    (alike : PartAlike first second) (known : List Record) :
    (∃ rewritten text records, extractor.alone first = .ok rewritten ∧
        extractor.onClause second.1 second.2 known = .ok (text, records) ∧
        PartAlike rewritten (second.1, text)) ∨
      ∃ error error', extractor.alone first = .error error ∧
        extractor.onClause second.1 second.2 known = .error error' ∧
        error.Alike error' ∧ error.part = error'.part := by
  obtain ⟨part, clause⟩ := first
  obtain ⟨part', clause'⟩ := second
  obtain ⟨same, clauses⟩ := alike
  dsimp only at same clauses
  subst same
  have outcomes := uniform clause clause' [] known clauses
  unfold alone onClause
  dsimp only
  generalize (extractor clause []).clause = first at outcomes
  generalize extractor clause' known = second at outcomes
  obtain ⟨outcome, records⟩ := second
  cases outcomes with
  | ok texts => exact .inl ⟨_, _, records, rfl, rfl, rfl, texts⟩
  | error errors => exact .inr ⟨_, _, rfl, rfl, errors, rfl⟩

/-- **The parts of a query are rewritten together as each of them is alone.** -/
theorem Uniform.onParts_alike (uniform : extractor.Uniform)
    {parts parts' : List (QueryPart × Text)} (alike : List.Forall₂ PartAlike parts parts')
    (known : List Record) :
    PartsAlike (parts.mapM extractor.alone) ((extractor.onParts parts' known).map Prod.fst) := by
  induction alike generalizing known with
  | nil => exact .ok .nil
  | @cons first second rest rest' here _ ih =>
      rw [List.mapM_cons, onParts]
      rcases uniform.onClause_alike here known with
        ⟨rewritten, text, records, ok, ok', texts⟩ | ⟨error, error', failed, failed', same, part⟩
      · rw [ok, ok']
        have later := ih records
        dsimp only [bind, Except.bind]
        generalize rest.mapM extractor.alone = outcome at later
        generalize extractor.onParts rest' records = outcome' at later
        cases outcome' with
        | error error =>
            cases later with
            | error same part => exact .error same part
        | ok result =>
            cases later with
            | ok more => exact .ok (.cons texts more)
      · rw [failed, failed']
        exact .error same part

end Extractor

namespace TagReference

theorem uniform_extract : Extractor.Uniform extract :=
  fun _ _ known known' alike => extract_alike alike known known'

end TagReference

namespace AttributeReference

theorem uniform_extract : Extractor.Uniform extract :=
  fun _ _ known known' alike => extract_alike alike known known'

end AttributeReference

namespace Descriptor

/-- Rewrites the parts of a query alone, all of them for the tags and then for the attributes. -/
def partsAlone (query : Text) : Except QueryError (List (QueryPart × Text)) := do
  let tagged ← (Outline.ofQuery query).parts.mapM (Extractor.alone TagReference.extract)
  tagged.mapM (Extractor.alone AttributeReference.extract)

/-- A query is compiled as its parts are alone. -/
theorem compile_alike (query : Text) :
    PartsAlike (partsAlone query)
      ((compile query).map fun descriptor => descriptor.toOutline.parts) := by
  have parts : List.Forall₂ PartAlike (Outline.ofQuery query).parts (Outline.ofQuery query).parts :=
    List.forall₂_same.mpr fun part _ => .refl part
  have tagged := TagReference.uniform_extract.onParts_alike parts []
  have compiled := compile_parts query
  have onlyParts : (compile query).map (fun descriptor => descriptor.toOutline.parts) =
      ((compile query).map fun descriptor => (descriptor.toOutline.parts,
        descriptor.tagReferences, descriptor.attributeReferences)).map Prod.fst := by
    cases compile query <;> rfl
  rw [onlyParts, compiled, partsAlone]
  generalize (Outline.ofQuery query).parts.mapM (Extractor.alone TagReference.extract) = outcome
    at tagged
  generalize Extractor.onParts TagReference.extract (Outline.ofQuery query).parts [] = outcome'
    at tagged
  cases outcome' with
  | error error =>
      cases tagged with
      | error same part => exact .error same part
  | ok result =>
      cases tagged with
      | @ok clauses _ alike =>
          have attributed := AttributeReference.uniform_extract.onParts_alike alike []
          dsimp only [bind, Except.bind]
          generalize clauses.mapM (Extractor.alone AttributeReference.extract) = outcome
            at attributed
          generalize Extractor.onParts AttributeReference.extract result.1 [] = outcome'
            at attributed
          cases outcome' with
          | error error =>
              cases attributed with
              | error same part => exact .error same part
          | ok result =>
              cases attributed with
              | ok parts => exact .ok parts

/-- The parts of a query can be rewritten alone when each part can. -/
theorem exists_partsAlone_eq_ok_iff (query : Text) :
    (∃ rewritten, partsAlone query = .ok rewritten) ↔
      ∀ part ∈ (Outline.ofQuery query).parts, ∃ tagged,
        (TagReference.extract part.2 []).clause = .ok tagged ∧
          ∃ text, (AttributeReference.extract tagged []).clause = .ok text := by
  unfold partsAlone
  constructor
  · intro ⟨rewritten, ok⟩ part member
    cases first : (Outline.ofQuery query).parts.mapM (Extractor.alone TagReference.extract) with
    | error error =>
        rw [first] at ok
        cases ok
    | ok middle =>
        rw [first] at ok
        have tagged := Extractor.mapM_alone_eq_ok_iff.mp first
        have attributed := Extractor.mapM_alone_eq_ok_iff.mp ok
        obtain ⟨halfway, between, extracted⟩ :=
          List.mem_map.mp (tagged ▸ List.mem_map_of_mem member)
        obtain ⟨last, _, completed⟩ :=
          List.mem_map.mp (attributed ▸ List.mem_map_of_mem between)
        exact ⟨halfway.2, (Extractor.alone_eq_ok_iff.mp extracted.symm).2, last.2,
          (Extractor.alone_eq_ok_iff.mp completed.symm).2⟩
  · intro each
    obtain ⟨middle, first⟩ := Extractor.exists_mapM_alone_eq_ok fun part member =>
      (each part member).imp fun _ both => both.1
    rw [first]
    apply Extractor.exists_mapM_alone_eq_ok
    intro halfway between
    obtain ⟨part, member, extracted⟩ :=
      List.mem_map.mp (Extractor.mapM_alone_eq_ok_iff.mp first ▸ List.mem_map_of_mem between)
    obtain ⟨tagged, here, text, attributed⟩ := each part member
    rw [(Extractor.alone_eq_ok_iff.mp extracted).2] at here
    cases here
    exact ⟨text, attributed⟩

/-- A query is refused because of an error, positions apart, in one of its parts. -/
def RefusedFor (query : Text) (error : QueryError) (part : QueryPart) : Prop :=
  ∃ reported, compile query = .error reported ∧ reported.unclosed = error.unclosed ∧
    reported.name = error.name ∧ reported.part = part

/-- The error that ends the rewriting of the parts alone is the one that a query is refused for. -/
theorem refusedFor_of_alone {query : Text} {error : QueryError} {part : QueryPart}
    (failed : partsAlone query = .error (error.inPart part)) : RefusedFor query error part := by
  have alike := compile_alike query
  rw [failed] at alike
  cases compiled : compile query with
  | ok descriptor =>
      rw [compiled] at alike
      cases alike
  | error reported =>
      rw [compiled] at alike
      cases alike with
      | error same place => exact ⟨reported, compiled, same.1.symm, same.2.symm, place.symm⟩

/-- **The clauses of a query compile independently.** A query is compiled when each clause is, from
empty lists of records. Otherwise it is refused in the first part in which the extraction of tags
fails, and if there is none, in the first part in which the extraction of attributes does, for the
error that the clause has when it is compiled alone. -/
theorem compile_alone (query : Text) :
    ((∃ descriptor, compile query = .ok descriptor) ↔
        ∀ part ∈ (Outline.ofQuery query).parts, ∃ tagged,
          (TagReference.extract part.2 []).clause = .ok tagged ∧
            ∃ text, (AttributeReference.extract tagged []).clause = .ok text) ∧
      (∀ before part clause after error,
        (Outline.ofQuery query).parts = before ++ (part, clause) :: after →
        (∀ earlier ∈ before, ∃ tagged, (TagReference.extract earlier.2 []).clause = .ok tagged) →
        (TagReference.extract clause []).clause = .error error →
        RefusedFor query error part) ∧
      ∀ before part clause after tagged error,
        (Outline.ofQuery query).parts = before ++ (part, clause) :: after →
        (∀ other ∈ (Outline.ofQuery query).parts, ∃ tagged,
          (TagReference.extract other.2 []).clause = .ok tagged) →
        (∀ earlier ∈ before, ∀ tagged, (TagReference.extract earlier.2 []).clause = .ok tagged →
          ∃ text, (AttributeReference.extract tagged []).clause = .ok text) →
        (TagReference.extract clause []).clause = .ok tagged →
        (AttributeReference.extract tagged []).clause = .error error →
        RefusedFor query error part := by
  refine ⟨?_, ?_, ?_⟩
  · rw [← exists_partsAlone_eq_ok_iff, (compile_alike query).exists_ok_iff]
    cases compile query <;> simp [Except.map]
  · intro before part clause after error whole earlier failed
    apply refusedFor_of_alone
    rw [partsAlone, whole, Extractor.mapM_alone_eq_error earlier failed]
    rfl
  · intro before part clause after tagged error whole each earlier here failed
    apply refusedFor_of_alone
    obtain ⟨middle, first⟩ := Extractor.exists_mapM_alone_eq_ok each
    rw [partsAlone, first]
    have rewritten := Extractor.mapM_alone_eq_ok_iff.mp first
    have extracted : Extractor.alone TagReference.extract (part, clause) = .ok (part, tagged) :=
      Extractor.alone_eq_ok_iff.mpr ⟨rfl, here⟩
    rw [whole, List.map_append, List.map_cons, extracted, eq_comm, List.map_eq_append_iff]
      at rewritten
    obtain ⟨front, back, rfl, fronts, backs⟩ := rewritten
    obtain ⟨halfway, rest, rfl, same, _⟩ := List.map_eq_cons_iff.mp backs
    cases same
    apply Extractor.mapM_alone_eq_error _ failed
    intro other between
    obtain ⟨original, member, extracted⟩ :=
      List.mem_map.mp (fronts ▸ List.mem_map_of_mem between)
    exact earlier original member other.2 (Extractor.alone_eq_ok_iff.mp extracted).2

/-- An error in the tags of the order comes before one in the attributes of the filter. -/
theorem compile_alone_refused :
    RefusedFor "@a.On(x ORDER BY #b\x7by".toList ⟨.dataFilter, "b".toList, 2, .clause⟩ .order ∧
      RefusedFor "#c ORDER BY @a.On(d".toList ⟨.tagFilters, "a".toList, 2, .clause⟩ .order := by
  constructor
  · apply (compile_alone _).2.1 [(.filter, "@a.On(x".toList)] .order "#b\x7by".toList []
    · decide +kernel
    · intro earlier member
      rw [List.mem_singleton.mp member]
      exact ⟨"@a.On(x".toList, by decide +kernel⟩
    · decide +kernel
  · have parts : (Outline.ofQuery "#c ORDER BY @a.On(d".toList).parts =
        [(.filter, "#c".toList), (.order, "@a.On(d".toList)] := by decide +kernel
    have filter : (TagReference.extract "#c".toList []).clause = .ok "{tag0}".toList := by
      decide +kernel
    have order : (TagReference.extract "@a.On(d".toList []).clause = .ok "@a.On(d".toList := by
      decide +kernel
    apply (compile_alone _).2.2 [(.filter, "#c".toList)] .order _ [] _ _ parts _ _ order
    · decide +kernel
    · rw [parts]
      intro other member
      rcases List.mem_cons.mp member with rfl | last
      · exact ⟨_, filter⟩
      · rw [List.mem_singleton.mp last]
        exact ⟨_, order⟩
    · intro earlier member tagged extracted
      rw [List.mem_singleton.mp member, filter] at extracted
      cases extracted
      exact ⟨"{tag0}".toList, by decide +kernel⟩

end Descriptor

end NoteQuery
