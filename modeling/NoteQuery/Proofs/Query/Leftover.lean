import Mathlib.Data.List.Forall2
import NoteQuery.Proofs.Query.Clauses
import NoteQuery.Proofs.Reference.SeveredFilters

/-! # References that compiling leaves behind

In a query without braces every attribute reference is replaced, and every tag reference is replaced
or consumed together with the attribute that owns it, with one exception: tag filters that were
severed from their attribute keep their tags (`Descriptor.holdsReference_iff`). This takes an
attribute with the suffix `.Exists()` inside of the tag filters of another one.
-/

namespace NoteQuery

/-- Whether a tag or an attribute reference can be read somewhere in a text. -/
def HoldsReference (clause : Text) : Prop :=
  ∃ spelling place, place <:+ clause ∧
    ((TagReference.read? spelling place).isSome ∨ (AttributeHead.read? spelling place).isSome)

/-- Whether a tag reference can be read in tag filters that were severed from their attribute. -/
def HoldsSeveredTag (clause : Text) : Prop :=
  ∃ spelling front text, clause = front ++ text ∧ Severed front ∧
    (TagReference.read? spelling text).isSome

theorem HoldsSeveredTag.holdsReference {clause : Text} (holds : HoldsSeveredTag clause) :
    HoldsReference clause := by
  obtain ⟨spelling, front, text, rfl, _, read⟩ := holds
  exact ⟨spelling, text, List.suffix_append front text, .inl read⟩

/-- Behind both phases a clause that held no brace holds a reference only in severed tag filters,
and these come from nested ones. -/
theorem holdsSeveredTag_of_rewritten {clause : Text} {tags attributes : Nat}
    (unbraced : '{' ∉ clause)
    (tagged : TagReference.phase.Completes clause tags)
    (completes : AttributeReference.phase.Completes (TagReference.phase.rewritten clause tags)
      attributes)
    (holds : HoldsReference (AttributeReference.phase.rewritten
      (TagReference.phase.rewritten clause tags) attributes)) :
    HoldsSeveredTag (AttributeReference.phase.rewritten
      (TagReference.phase.rewritten clause tags) attributes) ∧ NestsFilters clause := by
  have nests : NestsFilters (TagReference.phase.rewritten clause tags) → NestsFilters clause := by
    intro nests
    have halfway : NestsFilters (TagReference.phase.halfway clause tags) := by
      rw [← TagReference.sources_scan tagged.2]
      exact nests.of_numbered
    rw [← TagReference.sources_scan tagged.1]
    exact halfway.of_numbered
  obtain ⟨spelling, place, ⟨front, whole⟩, read | read⟩ := holds
  · have settled := AttributeReference.onlyBehind_rewritten completes
      (TagReference.onlyBehind_rewritten unbraced tagged spelling) nests
    obtain ⟨severed, nested⟩ := settled front place whole.symm read
    exact ⟨⟨spelling, front, place, whole.symm, severed, read⟩, nested⟩
  · exact (AttributeReference.not_holdsHead_rewritten completes spelling
      ⟨place, ⟨front, whole⟩, read⟩).elim

namespace Descriptor

variable {query : Text} {descriptor : Descriptor}

/-- **No reference is left behind** in a compiled query without braces, except for tags in severed
tag filters; such a clause has nested tag filters in the query. -/
theorem holdsReference_iff (compiled : compile query = .ok descriptor) (unbraced : '{' ∉ query) :
    List.Forall₂ (fun raw clause => (HoldsReference clause ↔ HoldsSeveredTag clause) ∧
        (HoldsReference clause → NestsFilters raw))
      (Outline.ofQuery query).clauses descriptor.clauses := by
  obtain ⟨tagged, tags, attributes⟩ := phases_of_compile compiled
  have first := Phase.forall₂_onParts tags
  have second := Phase.forall₂_onParts attributes
  rw [Outline.map_snd_parts] at first second
  have free : ∀ clause ∈ (Outline.ofQuery query).clauses, '{' ∉ clause := by
    intro clause member brace
    obtain ⟨front, back, rfl⟩ := List.append_of_mem brace
    have within : ['{'] <:+: query := by
      apply Outline.infix_query_of_mem_clauses member ⟨front, back, by simp⟩ <;> simp
    exact unbraced (within.subset List.mem_cons_self)
  generalize (Outline.ofQuery query).clauses = raws at first free
  generalize tagged.map Prod.snd = middles at first second
  generalize descriptor.clauses = clauses at second ⊢
  induction first generalizing clauses with
  | nil =>
      cases second
      exact .nil
  | @cons raw _ raws middles rewritten _ ih =>
      cases second with
      | cons rewritten' later =>
          obtain ⟨next, completes, rfl⟩ := rewritten
          obtain ⟨next', completes', rfl⟩ := rewritten'
          have settled := holdsSeveredTag_of_rewritten (free raw List.mem_cons_self) completes
            completes'
          refine .cons ⟨⟨fun holds => (settled holds).1, HoldsSeveredTag.holdsReference⟩,
            fun holds => (settled holds).2⟩ (ih ?_ _ later)
          intro clause member
          exact free clause (List.mem_cons_of_mem _ member)

/-- Without nested tag filters nothing is left behind. -/
theorem holdsReference_iff_flat :
    ∃ descriptor, compile "@a.On(#t|u) #v ORDER BY @[b c].Exists()".toList = .ok descriptor ∧
      ∀ clause ∈ descriptor.clauses, ¬ HoldsReference clause := by
  have succeeds : (compile "@a.On(#t|u) #v ORDER BY @[b c].Exists()".toList).isOk := by
    decide +kernel
  have flat : ∀ raw ∈ (Outline.ofQuery "@a.On(#t|u) #v ORDER BY @[b c].Exists()".toList).clauses,
      ¬ (AttributeHead.existsSuffix ++ AttributeHead.filtersOpening) <:+: raw := by
    decide +kernel
  cases compiled : compile "@a.On(#t|u) #v ORDER BY @[b c].Exists()".toList with
  | error error =>
      rw [compiled] at succeeds
      cases succeeds
  | ok descriptor =>
      refine ⟨descriptor, rfl, ?_⟩
      have settled := holdsReference_iff compiled (by decide)
      intro clause member holds
      obtain ⟨index, bound, rfl⟩ := List.getElem_of_mem member
      have bound' := settled.length_eq ▸ bound
      obtain ⟨before, between, behind, whole⟩ := (settled.get bound' bound).2 holds
      refine flat _ (List.get_mem _ ⟨index, bound'⟩) ⟨before ++
        (AttributeHead.filtersOpening ++ between), behind, ?_⟩
      rw [whole]
      simp only [List.append_assoc]

/-- The parenthesis of `.Exists()` closes the tag filters of the outer attribute, and the tag in
those of the inner one is left behind. -/
theorem holdsReference_of_nested :
    ∃ descriptor, compile "@a.On(@b.Exists().On(#t))".toList = .ok descriptor ∧
      '{' ∉ "@a.On(@b.Exists().On(#t))".toList ∧
      ∃ clause ∈ descriptor.clauses, HoldsReference clause :=
  ⟨{ filter := some "{attr0}.On(#t))".toList
     order := none
     groupings := []
     tagReferences := []
     attributeReferences := [⟨⟨⟨none, "a".toList⟩, false⟩, some []⟩] },
    by decide +kernel, by decide,
    "{attr0}.On(#t))".toList, by decide, .plain, "#t))".toList, by decide, .inl (by decide)⟩

end Descriptor

end NoteQuery
