import NoteQuery.Proofs.Reference.AttributeCut
import NoteQuery.Proofs.Reference.WrittenAttribute

/-! # Extracting attributes again

The texts that an extraction of attributes leaves as they are, without a further record, are those
in which no attribute reference begins (`AttributeReference.extract_eq_self_iff`). Every extraction
that succeeds ends with such a text, so extracting from it again changes nothing
(`AttributeReference.extract_exhausts`).
-/

namespace NoteQuery

namespace AttributeReference

variable {spelling : Spelling} {clause text : Text} {known : List AttributeReference} {next : Nat}

/-- No attribute reference begins anywhere in a text. -/
def Exhausted (text : Text) : Prop :=
  ∀ spelling place, place <:+ text → ¬ AttributeHead.Begins spelling place

theorem exhausted_iff : Exhausted text ↔ ∀ spelling, ¬ HoldsHead spelling text := by
  simp only [Exhausted, HoldsHead, AttributeHead.begins_iff, not_exists, not_and]

/-- A pass finds nothing in an exhausted text. -/
theorem scan_of_exhausted (exhausted : Exhausted text) (spelling : Spelling) :
    phase.scan spelling text = ⟨text.map .plain, none⟩ := by
  obtain ⟨unfailed, empty⟩ := scan_of_not_holdsHead (exhausted_iff.mp exhausted spelling)
  exact Phase.scan_of_records_eq_nil unfailed empty

/-- What both passes leave is exhausted: neither of them leaves or makes up a head. -/
theorem exhausted_rewritten (completes : phase.Completes clause next) :
    Exhausted (phase.rewritten clause next) :=
  exhausted_iff.mpr (not_holdsHead_rewritten completes)

/-- An extraction ends with an exhausted text. -/
theorem exhausted_of_extract (extracted : (extract clause known).clause = .ok text) :
    Exhausted text := by
  rw [← extractor_phase] at extracted
  obtain ⟨completes, rfl, _⟩ := Phase.completes_of_extractor extracted
  exact exhausted_rewritten completes

/-- **An extraction leaves a text as it is** and adds no record exactly when the text is
exhausted. -/
theorem extract_eq_self_iff : extract text known = ⟨.ok text, known⟩ ↔ Exhausted text := by
  constructor
  · intro unchanged
    have kept : (extract text known).clause = .ok text := by rw [unchanged]
    exact exhausted_of_extract kept
  · intro exhausted
    rw [← extractor_phase]
    exact Phase.extractor_of_unread (scan_of_exhausted exhausted)

/-- **Extracting attributes exhausts them.** In the text that an extraction leaves no attribute
reference begins, whatever tag filters were taken out of it and whichever texts were joined, and
extracting from it again changes nothing, whatever is known by then. -/
theorem extract_exhausts (extracted : (extract clause known).clause = .ok text) :
    Exhausted text ∧ ∀ later, extract text later = ⟨.ok text, later⟩ := by
  have exhausted := exhausted_of_extract extracted
  exact ⟨exhausted, fun later => extract_eq_self_iff.mpr exhausted⟩

/-- A call behind a name, a sign without a name and severed tag filters are left, and no sign meets
a name over the place of a reference. -/
theorem extract_exhausts_joined :
    (extract "@@[b c].On(@d)e @a.Size() @x.On(@y.Exists().On(z))".toList []).clause =
        .ok "@{attr3}e {attr1}.Size() {attr2}.On(z))".toList ∧
      Exhausted "@{attr3}e {attr1}.Size() {attr2}.On(z))".toList ∧
      ∀ later, extract "@{attr3}e {attr1}.Size() {attr2}.On(z))".toList later =
        ⟨.ok "@{attr3}e {attr1}.Size() {attr2}.On(z))".toList, later⟩ := by
  have extracted : (extract "@@[b c].On(@d)e @a.Size() @x.On(@y.Exists().On(z))".toList []).clause =
      .ok "@{attr3}e {attr1}.Size() {attr2}.On(z))".toList := by decide +kernel
  exact ⟨extracted, extract_exhausts extracted⟩

end AttributeReference

end NoteQuery
