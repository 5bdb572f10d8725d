import NoteQuery.Proofs.Reference.Reached
import NoteQuery.Proofs.Reference.SkippedTags

/-! # Which queries are accepted

The clauses of a query may close all delimiters that references can open
(`Outline.ClosesDelimiters`). Then no pass for tags fails, and the plain pass for attributes finds
every parenthesis that it looks for. What is left are the two ways in which a delimiter that is
closed in the clause is open for a pass: the plain pass takes the parenthesis away that closes tag
filters of a name in brackets, or the brace that closes a data filter is not in the fragment of the
tag filters in which the data filter opens (`Descriptor.exists_compile_iff`).
-/

namespace NoteQuery

open AttributeHead (OwnedBy filtersOpening)
open Delimiters (braces)

/-- All delimiters that references can open are closed: the braces of a clause are balanced, and a
closing parenthesis follows wherever tag filters open. -/
structure ClosesDelimiters (clause : Text) : Prop where
  braces : braces.Balanced clause
  filters : ∀ place, place <:+ clause → filtersOpening <+: place → ')' ∈ place

instance (clause : Text) : Decidable (ClosesDelimiters clause) :=
  decidable_of_iff (braces.Balanced clause ∧
      ∀ place ∈ clause.tails, filtersOpening <+: place → ')' ∈ place)
    ⟨fun both => ⟨both.1, fun place suffix => both.2 place ((List.mem_tails _ _).mpr suffix)⟩,
      fun closes => ⟨closes.braces, fun place member =>
        closes.filters place ((List.mem_tails _ _).mp member)⟩⟩

/-- No attribute owns the end of a clause that closes its delimiters. -/
theorem ClosesDelimiters.not_ownedBy {clause : Text} (closes : ClosesDelimiters clause)
    (owner : Spelling) : ¬ OwnedBy owner clause := by
  rintro ⟨before, head, inside, rfl, _, unclosed⟩
  have closed := closes.filters (filtersOpening ++ inside)
    ((List.suffix_append _ _).trans (List.suffix_append _ _)) (List.prefix_append _ _)
  rcases List.mem_append.mp closed with opening | behind
  · exact absurd opening (by decide)
  · exact unclosed behind

namespace TagReference

variable {spelling owner : Spelling} {clause : Text} {next : Nat}

/-- A pass does not take away the parenthesis that closes tag filters: an attribute that owns the
end of the written clause owned the end of the clause. -/
theorem ownedBy_of_numbered (unfailed : (scan spelling clause).failure = none)
    (owned : OwnedBy owner (Piece.numbered .tag next (scan spelling clause).pieces)) :
    OwnedBy owner clause := by
  have read := (free_scan unfailed).ownedBy_sources owned
  rwa [sources_scan unfailed] at read

/-- The passes for tags receive balanced texts when a clause is balanced. -/
theorem balanced_of_receives {text : Text} (received : phase.Receives clause next spelling text)
    (balanced : braces.Balanced clause) : braces.Balanced text := by
  cases received with
  | plain => exact balanced
  | bracketed => exact balanced_numbered balanced next

/-- The tag phase leaves a clause balanced whose tag filters are closed. -/
theorem not_ownedBy_rewritten (completes : phase.Completes clause next)
    (closes : ClosesDelimiters clause) : ¬ OwnedBy owner (phase.rewritten clause next) := by
  intro owned
  have halfway : OwnedBy owner (phase.halfway clause next) := ownedBy_of_numbered completes.2 owned
  exact closes.not_ownedBy owner (ownedBy_of_numbered completes.1 halfway)

end TagReference

namespace AttributeReference

variable {spelling : Spelling} {text body : Text}

/-- No data filter in the fragments of some tag filters stays open. -/
def ClosesDataFilters (body : Text) : Prop :=
  ∀ spelling fragment tag inside, FiltersReceive body spelling fragment →
    TagReference.ComesTo spelling fragment tag ('{' :: inside) → ¬ braces.Matched 0 inside

theorem closesDataFilters_iff :
    ClosesDataFilters body ↔ ∃ filters, readTagFilters body = .ok filters := by
  rw [exists_readTagFilters_iff]
  refine forall₂_congr fun spelling fragment => ?_
  rw [Option.eq_none_iff_forall_ne_some]
  constructor
  · intro closes received error failed
    obtain ⟨tag, inside, comes, matched, _⟩ := TagReference.failure_scan_eq_some_iff.mp failed
    exact closes tag inside received comes matched
  · intro unfailed tag inside received comes matched
    exact unfailed received _
      (TagReference.failure_scan_eq_some_iff.mpr ⟨tag, inside, comes, matched, rfl⟩)

/-- A pass for attributes reaches the end exactly when all tag filters that it comes to are closed
and no data filter in them stays open. -/
theorem failure_scan_eq_none_iff :
    (scan spelling text).failure = none ↔
      ∀ head inside, ComesTo spelling text head (filtersOpening ++ inside) →
        ∃ body behind, inside = body ++ ')' :: behind ∧ ')' ∉ body ∧ ClosesDataFilters body := by
  rw [Option.eq_none_iff_forall_ne_some]
  constructor
  · intro unfailed head inside comes
    cases cut : Text.cut? ')' inside with
    | none =>
        refine (unfailed _ (failure_scan_eq_some_iff.mpr
          ⟨head, inside, comes, .inl ⟨Text.cut?_eq_none_iff.mp cut, rfl⟩⟩)).elim
    | some result =>
        obtain ⟨body, behind⟩ := result
        obtain ⟨whole, free⟩ := Text.cut?_eq_some_iff.mp cut
        refine ⟨body, behind, whole, free, closesDataFilters_iff.mpr ?_⟩
        cases read : readTagFilters body with
        | ok filters => exact ⟨filters, rfl⟩
        | error error =>
            exact (unfailed _ (failure_scan_eq_some_iff.mpr
              ⟨head, inside, comes, .inr ⟨body, behind, whole, free, read⟩⟩)).elim
  · intro closes error failed
    obtain ⟨head, inside, comes, ending⟩ := failure_scan_eq_some_iff.mp failed
    obtain ⟨body, behind, rfl, free, closed⟩ := closes head inside comes
    rcases ending with ⟨unclosed, _⟩ | ⟨body', behind', same, free', refused⟩
    · exact unclosed (List.mem_append_right _ List.mem_cons_self)
    · obtain ⟨rfl, rfl⟩ := Text.eq_of_first_mark same free free'
      obtain ⟨filters, read⟩ := closesDataFilters_iff.mp closed
      rw [refused] at read
      cases read

end AttributeReference

namespace Descriptor

variable {query text inside : Text} {part : QueryPart} {head : AttributeHead}

/-- The tag filters that a plain pass for attributes comes to are closed, since the passes in front
of it took no parenthesis away. -/
theorem Receives.closed_of_plain (received : Receives query part .attribute .plain text)
    (closes : ∀ clause ∈ (Outline.ofQuery query).clauses, ClosesDelimiters clause)
    (comes : AttributeReference.ComesTo .plain text head (filtersOpening ++ inside)) :
    ')' ∈ inside := by
  obtain ⟨clause, tags, attributes, member, completes, receives⟩ :=
    received.exists_clause_of_attribute
  cases receives
  by_contra unclosed
  obtain ⟨place, reaches, read⟩ := comes
  obtain ⟨rfl, fits⟩ := AttributeHead.spelled_of_read? read
  obtain ⟨before, whole⟩ := reaches.suffix
  exact TagReference.not_ownedBy_rewritten completes (closes clause member)
    ⟨before, head, inside, whole.symm, fits, unclosed⟩

/-- **A query whose delimiters are closed is compiled** exactly when every pass for attributes finds
them closed, too: no plain pass has taken away the parenthesis that closes the tag filters of a name
in brackets, and no data filter stays open in the fragment of the tag filters that it stands in. -/
theorem exists_compile_iff
    (closes : ∀ clause ∈ (Outline.ofQuery query).clauses, ClosesDelimiters clause) :
    (∃ descriptor, compile query = .ok descriptor) ↔
      (∀ part text head inside, Receives query part .attribute .bracketed text →
        AttributeReference.ComesTo .bracketed text head (filtersOpening ++ inside) →
          ')' ∈ inside) ∧
      ∀ part spelling text head body behind, Receives query part .attribute spelling text →
        AttributeReference.ComesTo spelling text head (filtersOpening ++ (body ++ ')' :: behind)) →
          ')' ∉ body → AttributeReference.ClosesDataFilters body := by
  rw [exists_compile_eq_ok_iff]
  constructor
  · intro unfailed
    have closed (part : QueryPart) (spelling : Spelling) (text : Text)
        (received : Receives query part .attribute spelling text) :=
      AttributeReference.failure_scan_eq_none_iff.mp
        (unfailed part .attribute spelling text received)
    constructor
    · intro part text head inside received comes
      obtain ⟨body, behind, rfl, _⟩ := closed part .bracketed text received head inside comes
      exact List.mem_append_right _ List.mem_cons_self
    · intro part spelling text head body behind received comes free
      obtain ⟨body', behind', same, free', filters⟩ :=
        closed part spelling text received head _ comes
      obtain ⟨rfl, rfl⟩ := Text.eq_of_first_mark same free free'
      exact filters
  · rintro ⟨parentheses, filters⟩ part kind spelling text received
    match kind with
    | .expression => rfl
    | .tag =>
        obtain ⟨clause, next, member, received⟩ := received.exists_clause_of_tag
        exact TagReference.failure_of_balanced
          (TagReference.balanced_of_receives received (closes clause member).braces)
    | .attribute =>
        refine AttributeReference.failure_scan_eq_none_iff.mpr fun head inside comes => ?_
        have closed : ')' ∈ inside := by
          cases spelling with
          | plain => exact received.closed_of_plain closes comes
          | bracketed => exact parentheses part text head inside received comes
        obtain ⟨⟨body, behind⟩, cut⟩ := Option.ne_none_iff_exists'.mp
          (fun none => Text.cut?_eq_none_iff.mp none closed)
        obtain ⟨rfl, free⟩ := Text.cut?_eq_some_iff.mp cut
        exact ⟨body, behind, rfl, free, filters part spelling text head body behind received comes
          free⟩

/-- In an accepted query every data filter in tag filters is closed in its fragment. -/
theorem exists_compile_iff_note :
    (∀ clause ∈ (Outline.ofQuery "#a\x7b.x\x7d ORDER BY @[b].On(c\x7by\x7d|d)".toList).clauses,
        ClosesDelimiters clause) ∧
      ∀ part spelling text head body behind,
        Receives "#a\x7b.x\x7d ORDER BY @[b].On(c\x7by\x7d|d)".toList part .attribute spelling
            text →
          AttributeReference.ComesTo spelling text head
              (filtersOpening ++ (body ++ ')' :: behind)) →
            ')' ∉ body → AttributeReference.ClosesDataFilters body := by
  refine ⟨by decide +kernel, ?_⟩
  have succeeds : (compile "#a\x7b.x\x7d ORDER BY @[b].On(c\x7by\x7d|d)".toList).isOk := by
    decide +kernel
  have accepted : ∃ descriptor,
      compile "#a\x7b.x\x7d ORDER BY @[b].On(c\x7by\x7d|d)".toList = .ok descriptor := by
    cases compiled : compile "#a\x7b.x\x7d ORDER BY @[b].On(c\x7by\x7d|d)".toList with
    | ok descriptor => exact ⟨descriptor, rfl⟩
    | error error =>
        rw [compiled] at succeeds
        cases succeeds
  exact ((exists_compile_iff (by decide +kernel)).mp accepted).2

/-- A data filter with a bar in it opens in one fragment and is closed in another one, and the
parenthesis that closes tag filters may belong to those of a plain name in them. -/
theorem refused_of_bar :
    (∀ clause ∈ (Outline.ofQuery "@a.On(t\x7bx|y\x7d)".toList).clauses, ClosesDelimiters clause) ∧
      compile "@a.On(t\x7bx|y\x7d)".toList = .error ⟨.dataFilter, ['t'], 2, .filter⟩ ∧
    (∀ clause ∈ (Outline.ofQuery "@[a].On(@b.On(c)".toList).clauses, ClosesDelimiters clause) ∧
      compile "@[a].On(@b.On(c)".toList = .error ⟨.tagFilters, ['a'], 4, .filter⟩ := by
  decide +kernel

end Descriptor

end NoteQuery
