import Mathlib.Data.List.Chain
import NoteQuery.Proofs.Query.Depths
import NoteQuery.Proofs.Reference.SeveredFilters
import NoteQuery.Proofs.Reference.WrittenTag

/-! # Attributes written back

An attribute reference is written with its tag filters joined by bars. These are read in their order
again, each at least as one record, so extracting the attributes of what is written gives the record
back exactly when all its tag filters are readable and include the owner
(`AttributeReference.extract_written_iff`).
-/

namespace NoteQuery

open AttributeHead (filtersOpening)

/-- A fragment does not hold the separator. -/
theorem Text.not_mem_of_mem_splitOn {separator : Char} {text fragment : Text}
    (member : fragment ∈ text.splitOn separator) : separator ∉ fragment := by
  induction text generalizing fragment with
  | nil =>
      rw [List.splitOn_nil, List.mem_singleton] at member
      rw [member]
      exact List.not_mem_nil
  | cons c rest ih =>
      rw [List.splitOn_cons_eq_if_modifyHead] at member
      split at member
      · rcases List.mem_cons.mp member with rfl | later
        · exact List.not_mem_nil
        · exact ih later
      · rename_i other
        obtain ⟨first, more, whole⟩ :=
          List.exists_cons_of_ne_nil (List.splitOn_ne_nil separator rest)
        rw [whole, List.modifyHead_cons, List.mem_cons] at member
        rcases member with rfl | later
        · rw [List.mem_cons, not_or]
          refine ⟨?_, ih (whole ▸ List.mem_cons_self)⟩
          rintro rfl
          simp at other
        · exact ih (whole ▸ List.mem_cons_of_mem _ later)

/-- A tilde in front of written modifiers includes the owner, and where one stands already the owner
is included. -/
theorem TagModifiers.Marks.owner {marks : Text} {modifiers : TagModifiers}
    (marked : Marks marks modifiers) :
    modifiers.written.head? = some '~' ∧ modifiers.includeOwner = true ∨
      modifiers.written.head? = some '#' ∧
        Marks ('~' :: modifiers.written) { modifiers with includeOwner := true } := by
  cases marked with
  | tilde => exact .inl ⟨rfl, rfl⟩
  | hashes early more relaxed late =>
      refine .inr ⟨rfl, ?_⟩
      have owned := Marks.hashes true more relaxed (early || late)
      cases relaxed <;> cases early <;> cases late <;>
        simpa [TagModifiers.written, Text.optional] using owned

/-- Joined texts hold only the characters of the texts and of the separator. -/
theorem Text.not_mem_intercalate {separator c : Char} {texts : List Text} (other : c ≠ separator)
    (absent : ∀ text ∈ texts, c ∉ text) : c ∉ [separator].intercalate texts := by
  induction texts with
  | nil => exact List.not_mem_nil
  | cons first rest ih =>
      rw [List.forall_mem_cons] at absent
      cases rest with
      | nil => simpa using absent.1
      | cons second rest =>
          rw [List.intercalate_cons_cons, List.mem_append, List.mem_append, not_or, not_or]
          exact ⟨⟨absent.1, by simpa using other⟩, ih absent.2⟩

namespace TagReference

variable {spelling : Spelling} {text : Text} {tag : TagReference} {c : Char}

/-- A character is written only when references are spelled with it or it was read in a data
filter. -/
theorem mem_of_mem_written (recorded : tag.Recorded spelling text) (member : c ∈ tag.written)
    (outer : Placeholder.isInner c = false) (other : c ≠ '{') (further : isTagCharacter c = false) :
    c ∈ text := by
  obtain ⟨_, marked⟩ := recorded.marked
  rw [written_eq, writtenWith, QualifiedName.written_eq, ← List.append_assoc, List.mem_append]
    at member
  rcases member with inside | inside
  · rw [isTagCharacter_of_mem marked.marks_written recorded.named.fits_writtenIn inside] at further
    cases further
  · unfold suffix at inside
    split at inside
    · rename_i filter filtered
      obtain ⟨body, stretch, _, rfl⟩ := recorded.filtered filter filtered
      simp only [List.mem_cons, List.mem_append, List.not_mem_nil, or_false] at inside
      rcases inside with brace | inside | brace
      · exact (other brace).elim
      · refine stretch.mem (DataFilter.mem_of_mem_written outer other ?_ inside)
        rintro rfl
        cases further
      · rw [brace] at outer
        cases outer
    · cases inside

/-- A tag is written without blanks at its ends. -/
theorem trim_written (recorded : tag.Recorded spelling text) :
    Text.trim tag.written = tag.written := by
  obtain ⟨_, marked⟩ := recorded.marked
  have written : tag.written = tag.toTagModifiers.written ++ (tag.toQualifiedName.written ++
    tag.suffix) := tag.written_eq
  refine Text.trim_eq_self_iff.mpr ⟨?_, ?_⟩
  · intro c first
    obtain ⟨d, rest, start, sign⟩ := marked.marks_written.eq_cons
    rw [written, start] at first
    cases first
    rcases sign with rfl | rfl <;> rfl
  · intro c last
    rw [written] at last
    unfold suffix at last
    split at last
    · rw [← List.cons_append, ← List.append_assoc, ← List.append_assoc,
        List.getLast?_concat] at last
      cases last
      rfl
    · rw [List.append_nil, QualifiedName.written_eq] at last
      cases spelled : tag.toQualifiedName.writtenIn with
      | bracketed =>
          rw [spelled, QualifiedName.spelled, ← List.cons_append, ← List.append_assoc,
            List.getLast?_concat] at last
          cases last
          rfl
      | plain =>
          have fits := recorded.named.fits_writtenIn
          rw [spelled] at fits
          obtain ⟨d, rest, start, _⟩ := fits.spelled_eq_cons
          rw [spelled, List.getLast?_append_of_ne_nil _ (start ▸ List.cons_ne_nil d rest)] at last
          exact QualifiedName.writtenIn_eq_plain_iff.mp spelled c (List.mem_of_mem_getLast? last)

end TagReference

namespace AttributeReference

variable {spelling : Spelling} {text front behind : Text}

/-- No plain head stands in a text: behind no sign of attributes there is a character of a word. -/
def Headless (text : Text) : Prop :=
  text.IsChain fun c d => c = '@' → isWord d = false

theorem holdsHead_cons_iff {c : Char} {rest : Text} :
    HoldsHead spelling (c :: rest) ↔
      (AttributeHead.read? spelling (c :: rest)).isSome ∨ HoldsHead spelling rest := by
  constructor
  · rintro ⟨place, suffix, read⟩
    rcases List.suffix_cons_iff.mp suffix with rfl | later
    · exact .inl read
    · exact .inr ⟨place, later, read⟩
  · rintro (read | ⟨place, suffix, read⟩)
    · exact ⟨c :: rest, List.suffix_refl _, read⟩
    · exact ⟨place, suffix.trans (List.suffix_cons c rest), read⟩

/-- A plain head is read where a character of a word stands behind the sign of attributes. -/
theorem readHead?_plain_isSome_iff {c : Char} {rest : Text} :
    (AttributeHead.read? .plain (c :: rest)).isSome ↔
      c = '@' ∧ ∃ d ∈ rest.head?, isWord d = true := by
  constructor
  · intro read
    obtain ⟨⟨head, behind⟩, read⟩ := Option.isSome_iff_exists.mp read
    obtain ⟨whole, fits⟩ := AttributeHead.spelled_of_read? read
    obtain ⟨d, tail, start, word⟩ := fits.spelled_eq_cons
    rw [AttributeHead.spelled, start, List.cons_append, List.cons.injEq] at whole
    exact ⟨whole.1, d, by rw [whole.2]; rfl, word⟩
  · rintro ⟨rfl, d, first, word⟩
    obtain ⟨tail, rfl⟩ := List.head?_eq_some_iff.mp first
    have fits : (⟨none, [d]⟩ : QualifiedName).Fits .plain :=
      QualifiedName.fits_none_iff.mpr
        ⟨List.cons_ne_nil _ _, fun e member => List.mem_singleton.mp member ▸ word⟩
    exact AttributeHead.read?_isSome_of_spelled fits tail

theorem headless_iff : Headless text ↔ ¬ HoldsHead .plain text := by
  induction text with
  | nil =>
      refine iff_of_true .nil ?_
      rintro ⟨place, suffix, read⟩
      rw [List.suffix_nil.mp suffix] at read
      cases read
  | cons c rest ih =>
      rw [Headless, List.isChain_cons, ← Headless, ih, holdsHead_cons_iff,
        readHead?_plain_isSome_iff, not_or]
      refine and_congr_left fun _ => ?_
      simp only [not_and, not_exists, Bool.not_eq_true]
      exact ⟨fun apart sign d first => apart d first sign,
        fun apart d first sign => apart sign d first⟩

/-- A stretch of a text without heads has none. -/
theorem Headless.of_stretch (headless : Headless text) (stretch : front <:+: text) :
    Headless front := by
  obtain ⟨before, behind, rfl⟩ := stretch
  exact headless.left_of_append.right_of_append

/-- Another character than the sign of attributes adds no head in front of a text. -/
theorem Headless.cons {c : Char} (headless : Headless text) (other : c ≠ '@') :
    Headless (c :: text) :=
  List.IsChain.cons headless fun _ _ sign => (other sign).elim

/-- A text without signs of attributes may be put in front. -/
theorem Headless.append_of_not_mem (headless : Headless text) (unmarked : '@' ∉ front) :
    Headless (front ++ text) := by
  induction front with
  | nil => exact headless
  | cons c front ih =>
      rw [List.mem_cons, not_or] at unmarked
      exact (ih unmarked.2).cons (Ne.symm unmarked.1)

/-- Nothing reaches over a character that is none of a word. -/
theorem Headless.append (headless : Headless text) (further : Headless behind)
    (outside : ∀ c ∈ behind.head?, isWord c = false) : Headless (text ++ behind) :=
  List.IsChain.append headless further fun _ _ d first _ => outside d first

/-- A pass for tags makes up no head. -/
theorem Headless.of_receives {next : Nat}
    (received : TagReference.phase.Receives text next spelling behind) (headless : Headless text) :
    Headless behind := by
  cases received with
  | plain => exact headless
  | bracketed unfailed =>
      rw [headless_iff] at headless ⊢
      intro holds
      obtain ⟨front, c, back, split, read⟩ := HoldsHead.split holds
      refine headless ⟨_, ⟨Piece.sources front, ?_⟩, read⟩
      rw [← TagReference.phase.sources_scan .plain text unfailed, split, Piece.sources_append,
        Piece.sources_cons_plain]

/-- A fragment is given no character but a tilde. -/
theorem mem_of_mem_ownerFragment {c : Char} (other : c ≠ '~')
    (member : c ∈ ownerFragment text) : c ∈ text := by
  unfold ownerFragment at member
  split at member
  · exact member
  · exact (List.mem_cons.mp member).resolve_left other

/-- The passes over tag filters receive no bars, and no other character that was not there. -/
theorem FiltersReceive.not_mem {body : Text} {c : Char}
    (received : FiltersReceive body spelling text) (outer : Placeholder.isInner c = false)
    (other : c ≠ '{' ∧ c ≠ '~') (absent : c = '|' ∨ c ∉ body) : c ∉ text := by
  obtain ⟨fragment, inside, next, received⟩ := received.exists_fragment
  have apart : c ∉ fragment := by
    rcases absent with rfl | absent
    · exact Text.not_mem_of_mem_splitOn inside
    · exact fun member => absent ((Text.infix_of_mem_splitOn inside).mem member)
  have none : (ownerFragment (Text.trim fragment)).count c = 0 := by
    refine List.count_eq_zero_of_not_mem fun member => apart ?_
    exact (Text.trim_infix fragment).mem (mem_of_mem_ownerFragment other.2 member)
  have fewer := received.count_le outer other.1
  rw [none] at fewer
  exact List.count_eq_zero.mp (Nat.le_zero.mp fewer)

/-- The passes over tag filters without heads receive none. -/
theorem FiltersReceive.headless {body : Text} (received : FiltersReceive body spelling text)
    (headless : Headless body) : Headless text := by
  obtain ⟨fragment, inside, next, received⟩ := received.exists_fragment
  refine Headless.of_receives received ?_
  have trimmed : Headless (Text.trim fragment) :=
    headless.of_stretch ((Text.trim_infix fragment).trans (Text.infix_of_mem_splitOn inside))
  unfold ownerFragment
  split
  · exact trimmed
  · exact trimmed.cons (by decide)

/-- What is known of a record that was read from a query: its tag filters were read from texts
without the characters that end them, and in these no plain head stood when the name needs brackets,
since plain attributes are read first. -/
structure Recorded (reference : AttributeReference) : Prop where
  named : ∃ spelling, reference.toQualifiedName.Fits spelling
  listed : ∀ filters ∈ reference.tagFilters, ∀ tag ∈ filters, ∃ spelling text,
    tag.Recorded spelling text ∧ ')' ∉ text ∧ '|' ∉ text ∧
      (reference.toQualifiedName.writtenIn = .bracketed → Headless text)

/-- The name of an attribute that was read fits the spelling of the pass. -/
theorem fits_of_mem_records {reference : AttributeReference}
    (member : reference ∈ Piece.records (scan spelling text).pieces) :
    reference.toQualifiedName.Fits spelling := by
  obtain ⟨head, behind, ⟨_, _, read⟩, found⟩ := mem_records_scan_iff.mp member
  have fits := (AttributeHead.spelled_of_read? read).2
  rcases found with ⟨_, rfl⟩ | ⟨_, _, _, _, _, _, rfl⟩
  · exact fits
  · exact fits

/-- A pass reads attributes that can be written, if no plain head is left for the second one. -/
theorem recorded_of_mem_records {reference : AttributeReference}
    (member : reference ∈ Piece.records (scan spelling text).pieces)
    (settled : spelling = .bracketed → ¬ HoldsHead .plain text) : reference.Recorded := by
  have fits := fits_of_mem_records member
  obtain ⟨head, behind, comes, found⟩ := mem_records_scan_iff.mp member
  rcases found with ⟨_, rfl⟩ | ⟨body, rest, filters, rfl, free, readFilters, rfl⟩
  · exact ⟨⟨spelling, fits⟩, by rintro filters ⟨⟩⟩
  · refine ⟨⟨spelling, fits⟩, ?_⟩
    rintro filters ⟨⟩ tag listed
    obtain ⟨owner, fragment, received, recorded⟩ := (mem_readTagFilters_iff readFilters).mp listed
    refine ⟨owner, fragment, TagReference.recorded_of_mem_records recorded,
      received.not_mem rfl (by decide) (.inr free), received.not_mem rfl (by decide) (.inl rfl),
      fun bracketed => received.headless ?_⟩
    cases spelling with
    | plain =>
        rw [fits.writtenIn_eq_plain] at bracketed
        cases bracketed
    | bracketed => exact (headless_iff.mpr (settled rfl)).of_stretch comes.stretch

/-- The passes over a clause read records that can be written: those in brackets come to a text
without plain attributes. -/
theorem recorded_of_receives {reference : AttributeReference} {clause : Text} {next : Nat}
    (received : phase.Receives clause next spelling text)
    (member : reference ∈ Piece.records (scan spelling text).pieces) : reference.Recorded := by
  apply recorded_of_mem_records member
  intro bracketed
  cases received with
  | plain => cases bracketed
  | bracketed unfailed => exact not_holdsHead_numbered unfailed

/-- A character that is no sign of attributes does not change which tags attributes own. -/
theorem allOwned_cons_iff {c : Char} (unread : TagReference.read? spelling (c :: text) = none)
    (other : c ≠ '@') :
    TagReference.AllOwned spelling (c :: text) ↔ TagReference.AllOwned spelling text := by
  constructor
  · rintro settled front place rfl read
    obtain ⟨owner, before, head, inside, whole, fits, unclosed⟩ :=
      settled (c :: front) place rfl read
    cases before with
    | nil => exact (other (List.cons.inj whole).1).elim
    | cons d before => exact ⟨owner, before, head, inside, (List.cons.inj whole).2, fits, unclosed⟩
  · intro settled front place same read
    cases front with
    | nil =>
        rw [List.nil_append] at same
        rw [← same, unread] at read
        cases read
    | cons d front =>
        obtain ⟨rfl, rest⟩ := List.cons.inj same
        obtain ⟨owner, before, head, inside, rfl, fits, unclosed⟩ := settled front place rest read
        exact ⟨owner, c :: before, head, inside, rfl, fits, unclosed⟩

/-- A written tag filter is read with marks for its modifiers that include the owner. -/
theorem exists_marks_ownerFragment {tag : TagReference} {marks : Text}
    (marked : TagModifiers.Marks marks tag.toTagModifiers) :
    ∃ marks', TagModifiers.Marks marks' { tag.toTagModifiers with includeOwner := true } ∧
      ownerFragment tag.written = tag.writtenWith marks' ∧
      (marks' = tag.toTagModifiers.written ∨ marks' = '~' :: tag.toTagModifiers.written) := by
  have canonical := marked.marks_written
  obtain ⟨c, rest, start, _⟩ := canonical.eq_cons
  have head : tag.written.head? = some c := by
    rw [TagReference.written_eq, TagReference.writtenWith, start]
    rfl
  rw [ownerFragment, head]
  rcases marked.owner with ⟨tilde, included⟩ | ⟨hash, owned⟩
  · rw [start, List.head?_cons] at tilde
    refine ⟨tag.toTagModifiers.written, ?_, ?_, .inl rfl⟩
    · rw [← included]
      exact canonical
    · rw [if_pos tilde, TagReference.written_eq]
  · rw [start, List.head?_cons, Option.some.injEq] at hash
    refine ⟨'~' :: tag.toTagModifiers.written, owned, ?_, .inr rfl⟩
    rw [hash, if_neg (by decide), TagReference.written_eq]
    rfl

/-- **A written tag filter is read** as at least one record, and as the tag alone exactly when it
includes the owner and is readable. -/
theorem added_ownerFragment {tag : TagReference} (recorded : tag.Recorded spelling text)
    (next : Nat) :
    TagReference.phase.Completes (ownerFragment tag.written) next ∧
      TagReference.phase.added (ownerFragment tag.written) next ≠ [] ∧
      (TagReference.phase.added (ownerFragment tag.written) next = [tag] ↔
        tag.includeOwner = true ∧ tag.Readable) := by
  obtain ⟨_, marked⟩ := recorded.marked
  obtain ⟨marks, owned, whole, start⟩ := exists_marks_ownerFragment marked
  obtain ⟨filled, alone⟩ := TagReference.added_writtenWith_eq_singleton_iff recorded owned next
  have balanced := TagReference.balanced_writtenWith recorded owned
  rw [whole]
  refine ⟨TagReference.completes_of_balanced balanced next, filled, ?_⟩
  have included : { tag.toTagModifiers with includeOwner := true } = tag.toTagModifiers ↔
      tag.includeOwner = true := by
    constructor
    · intro same
      rw [← same]
    · intro included
      rw [← included]
  have settled :
      (tag.toQualifiedName.writtenIn = .bracketed →
        TagReference.AllOwned .plain (tag.writtenWith marks)) ↔
      (tag.toQualifiedName.writtenIn = .bracketed →
        TagReference.AllOwned .plain tag.written) := by
    refine imp_congr_right fun bracketed => ?_
    rcases start with rfl | rfl
    · rw [TagReference.written_eq]
    · have unread : TagReference.read? .plain
          (tag.writtenWith ('~' :: tag.toTagModifiers.written)) = none := by
        rw [TagReference.writtenWith, QualifiedName.written_eq, bracketed]
        exact TagReference.read?_plain_of_bracket fun c => owned.isModifier
      rw [TagReference.written_eq]
      exact allOwned_cons_iff unread (by decide)
  rw [alone, TagReference.reread_eq_self_iff recorded, included, settled, and_assoc]
  constructor
  · rintro ⟨included, ⟨unplaced, distinct⟩, settled⟩
    exact ⟨included, distinct, unplaced, settled⟩
  · rintro ⟨included, distinct, unplaced, settled⟩
    exact ⟨included, ⟨unplaced, distinct⟩, settled⟩

/-- Written tag filters are read one after the other. -/
theorem extractFragments_written {tags : List TagReference}
    (recorded : ∀ tag ∈ tags, ∃ spelling text, tag.Recorded spelling text)
    (known : List TagReference) :
    ∃ found, extractFragments (tags.map TagReference.written) known = .ok (known ++ found) ∧
      tags.length ≤ found.length ∧
      (found = tags ↔ ∀ tag ∈ tags, tag.includeOwner = true ∧ tag.Readable) := by
  induction tags generalizing known with
  | nil => exact ⟨[], by rw [List.append_nil]; rfl, Nat.le_refl _, by simp⟩
  | cons tag tags ih =>
      obtain ⟨_, _, here⟩ := recorded tag List.mem_cons_self
      obtain ⟨completes, filled, alone⟩ := added_ownerFragment here known.length
      have extracted : TagReference.extract (ownerFragment tag.written) known = ⟨.ok _, _⟩ :=
        Phase.extractor_eq_ok_iff.mpr ⟨completes, rfl, rfl⟩
      obtain ⟨found, later, longer, same⟩ := ih
        (fun tag member => recorded tag (List.mem_cons_of_mem _ member))
        (known ++ TagReference.phase.added (ownerFragment tag.written) known.length)
      have some_found := List.length_pos_iff.mpr filled
      refine ⟨TagReference.phase.added (ownerFragment tag.written) known.length ++ found, ?_, ?_,
        ?_⟩
      · rw [List.map_cons, extractFragments, extracted]
        dsimp only
        rw [later, List.append_assoc]
      · rw [List.length_append, List.length_cons]
        omega
      · rw [List.forall_mem_cons, ← alone, ← same]
        constructor
        · intro whole
          have counted := congrArg List.length whole
          rw [List.length_append, List.length_cons] at counted
          have single : (TagReference.phase.added (ownerFragment tag.written)
            known.length).length = [tag].length := by
              rw [List.length_singleton]
              omega
          exact List.append_inj (by rwa [List.singleton_append]) single
        · rintro ⟨first, rest⟩
          rw [first, rest, List.singleton_append]

/-- Written tag filters are read, to the same records exactly when each includes its owner and is
readable. -/
theorem readTagFilters_written {tags : List TagReference}
    (recorded : ∀ tag ∈ tags, ∃ spelling text, tag.Recorded spelling text ∧ '|' ∉ text) :
    ∃ found, readTagFilters (['|'].intercalate (tags.map TagReference.written)) = .ok found ∧
      (found = tags ↔ ∀ tag ∈ tags, tag.includeOwner = true ∧ tag.Readable) := by
  by_cases empty : tags = []
  · rw [empty]
    exact ⟨[], by decide +kernel, by simp⟩
  · have unbarred : ∀ fragment ∈ tags.map TagReference.written, '|' ∉ fragment := by
      intro fragment member
      obtain ⟨tag, listed, rfl⟩ := List.mem_map.mp member
      obtain ⟨spelling, text, here, absent⟩ := recorded tag listed
      exact fun bar => absent (TagReference.mem_of_mem_written here bar rfl (by decide) rfl)
    have trimmed : (tags.map TagReference.written).map Text.trim =
        tags.map TagReference.written := by
      rw [List.map_map]
      refine List.map_congr_left fun tag listed => ?_
      obtain ⟨spelling, text, here, _⟩ := recorded tag listed
      exact TagReference.trim_written here
    obtain ⟨found, read, _, same⟩ := extractFragments_written
      (fun tag listed => by
        obtain ⟨spelling, text, here, _⟩ := recorded tag listed
        exact ⟨spelling, text, here⟩) []
    refine ⟨found, ?_, same⟩
    rw [readTagFilters, List.splitOn_intercalate '|' unbarred (by simpa using empty), trimmed]
    exact read

/-- The tag filters of an attribute as they are written behind its head. -/
def filtersText (reference : AttributeReference) : Text :=
  match reference.tagFilters with
  | some filters =>
      filtersOpening ++ (['|'].intercalate (filters.map TagReference.written) ++ [')'])
  | none => []

theorem written_eq (reference : AttributeReference) :
    reference.written =
      reference.toAttributeHead.spelled reference.toQualifiedName.writtenIn ++
        reference.filtersText := by
  obtain ⟨⟨name, mustExist⟩, filters⟩ := reference
  cases filters <;>
    simp [written, filtersText, AttributeHead.spelled, AttributeHead.suffix,
      QualifiedName.written_eq]

variable {reference : AttributeReference}

/-- All tag filters of an attribute include the owner and are readable. -/
def Readable (reference : AttributeReference) : Prop :=
  ∀ filters ∈ reference.tagFilters, ∀ tag ∈ filters, tag.includeOwner = true ∧ tag.Readable

/-- A pass in the spelling of the name finds the written attribute and nothing else, and it is read
back exactly when it is readable. -/
theorem scan_written (recorded : reference.Recorded) :
    ∃ found : AttributeReference,
      scan reference.toQualifiedName.writtenIn reference.written =
          ⟨[.reference reference.written found], none⟩ ∧
        (found = reference ↔ reference.Readable) := by
  obtain ⟨_, fits⟩ := recorded.named
  have single {found : AttributeReference} (here : (step reference.toQualifiedName.writtenIn
      reference.written reference.written).found = .reference found []) :
      scan reference.toQualifiedName.writtenIn reference.written =
        ⟨[.reference reference.written found], none⟩ := by
    rw [scan, Scan.ofSteps_of_reference (List.append_nil _).symm here, Scan.ofSteps]
    rfl
  have closed : reference.filtersText = [] ∨
      ∃ inside, reference.filtersText = filtersOpening ++ inside := by
    unfold filtersText
    split
    · exact .inr ⟨_, rfl⟩
    · exact .inl rfl
  have read := AttributeHead.read?_spelled_append fits.fits_writtenIn closed
  rw [← written_eq] at read
  cases listed : reference.tagFilters with
  | none =>
      refine ⟨reference, single ?_, iff_of_true rfl ?_⟩
      · have empty : reference.filtersText = [] := by rw [filtersText, listed]
        have whole : { reference.toAttributeHead with tagFilters := none } = reference := by
          rw [← listed]
        have unopened : filtersOpening.isPrefixOf? [] = none := rfl
        rw [found_step]
        simp only [read, empty, unopened, whole]
      · rw [Readable, listed]
        rintro filters ⟨⟩
  | some filters =>
      obtain ⟨found, readFilters, same⟩ := readTagFilters_written fun tag member => by
        obtain ⟨spelling, text, here, _, unbarred, _⟩ := recorded.listed filters listed tag member
        exact ⟨spelling, text, here, unbarred⟩
      refine ⟨{ reference with tagFilters := some found }, single ?_, ?_⟩
      · have text : reference.filtersText = filtersOpening ++
            (['|'].intercalate (filters.map TagReference.written) ++ [')']) := by
          rw [filtersText, listed]
        have unclosed : ')' ∉ ['|'].intercalate (filters.map TagReference.written) := by
          refine Text.not_mem_intercalate (by decide) fun fragment member => ?_
          obtain ⟨tag, inside, rfl⟩ := List.mem_map.mp member
          obtain ⟨_, _, here, absent, _⟩ := recorded.listed filters listed tag inside
          intro closing
          exact absent (TagReference.mem_of_mem_written here closing rfl (by decide) rfl)
        have opened := List.isPrefixOf?_eq_some_iff_append_eq.mpr text.symm
        have cut : Text.cut? ')' (['|'].intercalate (filters.map TagReference.written) ++ [')']) =
            some (['|'].intercalate (filters.map TagReference.written), []) :=
          Text.cut?_eq_some_iff.mpr ⟨rfl, unclosed⟩
        rw [found_step]
        simp only [read, opened, cut, readFilters]
      · have unchanged : { reference with tagFilters := some found } = reference ↔
            found = filters := by
          constructor
          · intro equal
            have filtersSame := congrArg AttributeReference.tagFilters equal
            rw [listed] at filtersSame
            exact Option.some.inj filtersSame
          · rintro rfl
            rw [← listed]
        rw [unchanged, same, Readable, listed]
        simp

/-- A pass finds nothing where no head in its spelling stands. -/
theorem scan_of_not_holdsHead (absent : ¬ HoldsHead spelling text) :
    (scan spelling text).failure = none ∧ Piece.records (scan spelling text).pieces = [] := by
  have unread (head : AttributeHead) (behind : Text) : ¬ ComesTo spelling text head behind := by
    rintro ⟨place, reaches, read⟩
    exact absent ⟨place, reaches.suffix, by rw [read]; rfl⟩
  constructor
  · rw [Option.eq_none_iff_forall_ne_some]
    intro error failed
    obtain ⟨head, inside, comes, _⟩ := failure_scan_eq_some_iff.mp failed
    exact unread _ _ comes
  · refine List.eq_nil_iff_forall_not_mem.mpr fun record member => ?_
    obtain ⟨head, behind, comes, _⟩ := mem_records_scan_iff.mp member
    exact unread _ _ comes

/-- A pass finds no attribute in a placeholder. -/
theorem scan_numbered (spelling : Spelling) (kind : Placeholder) (number : Nat) :
    scan spelling (kind.numbered number) = ⟨(kind.numbered number).map .plain, none⟩ :=
  scan_of_unmarked spelling fun _ => Placeholder.isMark_of_mem_numbered

/-- A text without signs of attributes has no head. -/
theorem Headless.of_not_mem (unmarked : '@' ∉ text) : Headless text := by
  have empty : Headless [] := .nil
  have headless := empty.append_of_not_mem unmarked
  rwa [List.append_nil] at headless

/-- A tag is written without a plain head when it was read where none stood. -/
theorem headless_written_tag {tag : TagReference} (recorded : tag.Recorded spelling text)
    (headless : Headless text) (distinct : ∀ filter ∈ tag.filter, filter.Distinct) :
    Headless tag.written := by
  obtain ⟨_, marked⟩ := recorded.marked
  rw [TagReference.written_eq, TagReference.writtenWith, QualifiedName.written_eq,
    ← List.append_assoc]
  refine Headless.append_of_not_mem ?_ fun member => by
    cases TagReference.isTagCharacter_of_mem marked.marks_written recorded.named.fits_writtenIn
      member
  unfold TagReference.suffix
  split
  · rename_i filter filtered
    obtain ⟨body, stretch, _, rfl⟩ := recorded.filtered filter filtered
    rw [DataFilter.written_ofBody (distinct _ filtered)]
    have inside : Headless (Text.trim body) :=
      headless.of_stretch ((Text.trim_infix body).trans stretch)
    have closed : Headless (Text.trim body ++ ['}']) :=
      inside.append (.of_not_mem (by decide)) (by rintro c ⟨⟩; rfl)
    exact closed.cons (by decide)
  · exact .nil

/-- Joining texts with bars makes up no head. -/
theorem headless_intercalate {texts : List Text} (headless : ∀ text ∈ texts, Headless text) :
    Headless (['|'].intercalate texts) := by
  induction texts with
  | nil => exact .nil
  | cons first rest ih =>
      rw [List.forall_mem_cons] at headless
      cases rest with
      | nil => simpa using headless.1
      | cons second rest =>
          rw [List.intercalate_cons_cons, List.append_assoc]
          refine headless.1.append ?_ (by rintro c ⟨⟩; rfl)
          exact (ih headless.2).cons (by decide)

/-- No plain attribute is read from a readable one that is written in brackets. -/
theorem headless_written (recorded : reference.Recorded) (readable : reference.Readable)
    (bracketed : reference.toQualifiedName.writtenIn = .bracketed) :
    Headless reference.written := by
  obtain ⟨_, fits⟩ := recorded.named
  have signs : '@' ∉ reference.toQualifiedName.spelled .bracketed ++
      reference.toAttributeHead.suffix := by
    rw [List.mem_append, not_or]
    refine ⟨fun member => ?_, fun member => ?_⟩
    · have fits := fits.fits_writtenIn
      rw [bracketed] at fits
      cases fits.isNameCharacter member
    · exact absurd (AttributeHead.mem_suffix member) (by decide)
  have filters : Headless reference.filtersText := by
    unfold filtersText
    split
    · rename_i filters listed
      refine Headless.append_of_not_mem ?_ (by decide)
      refine Headless.append ?_ (.of_not_mem (by decide)) (by rintro c ⟨⟩; rfl)
      refine headless_intercalate fun fragment member => ?_
      obtain ⟨tag, inside, rfl⟩ := List.mem_map.mp member
      obtain ⟨_, _, here, _, _, headless⟩ := recorded.listed filters listed tag inside
      have distinct := (readable filters listed tag inside).2.distinct
      exact headless_written_tag here (headless bracketed) distinct
    · exact .nil
  rw [written_eq, bracketed, AttributeHead.spelled, List.cons_append]
  exact List.IsChain.cons (filters.append_of_not_mem signs) fun d first _ => by cases first; rfl

/-- **An attribute is read back from what is written** exactly when all its tag filters include the
owner and are readable. -/
theorem extract_written_iff (recorded : reference.Recorded) (known : List AttributeReference) :
    extract reference.written known =
        ⟨.ok (Placeholder.attribute.numbered known.length), known ++ [reference]⟩ ↔
      reference.Readable := by
  obtain ⟨found, scanned, same⟩ := scan_written recorded
  rw [← same, ← extractor_phase]
  by_cases early : reference.toQualifiedName.writtenIn = .bracketed →
      (phase.scan .plain reference.written).failure = none ∧
        Piece.records (phase.scan .plain reference.written).pieces = []
  · obtain ⟨completes, rewritten, added⟩ :=
      Phase.alone_of_scan scanned early (scan_numbered .bracketed .attribute) known.length
    rw [Phase.extractor_eq_ok_iff, List.append_right_inj, rewritten, added]
    constructor
    · rintro ⟨_, _, alone⟩
      exact (List.singleton_inj.mp alone).symm
    · rintro rfl
      exact ⟨completes, rfl, rfl⟩
  · rw [Classical.not_imp] at early
    obtain ⟨bracketed, early⟩ := early
    refine iff_of_false ?_ ?_
    · rw [Phase.extractor_eq_ok_iff, List.append_right_inj]
      rintro ⟨completes, _, alone⟩
      -- The plain pass would read this attribute, whose name is not plain.
      have filled : Piece.records (phase.scan .plain reference.written).pieces ≠ [] :=
        fun none => early ⟨completes.1, none⟩
      obtain ⟨first, more, plain⟩ := List.exists_cons_of_ne_nil filled
      have member : first ∈ Piece.records (scan .plain reference.written).pieces :=
        plain ▸ List.mem_cons_self
      rw [Phase.added, plain, List.cons_append, List.cons.injEq] at alone
      have fits := fits_of_mem_records member
      rw [← alone.1] at fits
      rw [fits.writtenIn_eq_plain] at bracketed
      cases bracketed
    · rw [same]
      intro readable
      have headless := headless_written recorded readable bracketed
      exact early (scan_of_not_holdsHead (headless_iff.mp headless))

end AttributeReference

end NoteQuery
