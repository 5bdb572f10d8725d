import NoteQuery.Proofs.Reference.SkippedTags
import NoteQuery.Proofs.Scan.Alike

/-! # One pass and starting again

A pass for tags walks along a clause once and asks the clause, as it was at the start, which bodies
attributes own. The same might be done by starting again: replace the leftmost tag that no attribute
owns, and look at the new text from its start (`TagReference.rescan`). Starting again follows the
pass (`TagReference.CaughtUp.agrees`) as long as the tags that the pass skips belong to attributes
that it leaves in the text (`TagReference.Anchored`). They part where a data filter takes the head
of an attribute away.
-/

namespace NoteQuery

open AttributeHead (OwnedBy)

/-- Two extractions agree: both give one text and one list of records, or both fail at a delimiter
of the same kind behind the same name. -/
inductive Extraction.Agrees {Record : Type} : Extraction Record → Extraction Record → Prop where
  | ok (text : Text) (records : List Record) : Agrees ⟨.ok text, records⟩ ⟨.ok text, records⟩
  | error {first second : QueryError} (known other : List Record)
      (unclosed : first.unclosed = second.unclosed) (name : first.name = second.name) :
      Agrees ⟨.error first, known⟩ ⟨.error second, other⟩

/-- An extraction that agrees with a successful one is equal to it. -/
theorem Extraction.Agrees.eq_of_ok {Record : Type} {first second : Extraction Record} {text : Text}
    (agrees : first.Agrees second) (succeeds : first.clause = .ok text) : second = first := by
  cases agrees with
  | ok => rfl
  | error => cases succeeds

namespace TagReference

/-- Reads a tag reference at the start of a text unless one of some bodies owns the place. -/
def free? (spelling : Spelling) (bodies : List OwnedBody) (text : Text) :
    Option (TagReference × Text) :=
  if (OwnedBody.owning? bodies text.length).isSome then none else read? spelling text

/-- The leftmost tag reference in one spelling that none of some bodies owns, between the text in
front of it and the text behind it. -/
def leftmost? (spelling : Spelling) (bodies : List OwnedBody) :
    Text → Option (Text × TagReference × Text)
  | [] => none
  | c :: rest =>
      match free? spelling bodies (c :: rest) with
      | some (tag, behind) => some ([], tag, behind)
      | none => (leftmost? spelling bodies rest).map fun found => (c :: found.1, found.2)

/-- A tag together with a data filter directly behind it, and the text behind both, unless the data
filter is never closed. -/
def withFilter? (tag : TagReference) (behind : Text) : Option (TagReference × Text) :=
  if DataFilter.opens behind then
    match DataFilter.close? 0 behind.tail with
    | some (body, rest) => some ({ tag with filter := some (.ofBody body) }, rest)
    | none => none
  else some (tag, behind)

variable {spelling : Spelling} {bodies : List OwnedBody} {clause text front behind rest : Text}
  {tag record : TagReference} {known : List TagReference} {error : QueryError}

theorem suffix_of_withFilter? (taken : withFilter? tag behind = some (record, rest)) :
    rest <:+ behind := by
  unfold withFilter? at taken
  split at taken
  · split at taken
    · rename_i closed
      cases taken
      exact (DataFilter.suffix_of_close? closed).trans (List.tail_suffix behind)
    · cases taken
  · cases taken
    exact List.suffix_refl _

theorem read?_of_free? (free : free? spelling bodies text = some (tag, behind)) :
    read? spelling text = some (tag, behind) :=
  (Option.ite_none_left_eq_some.mp free).2

/-- The leftmost tag stands behind the text in front of it. -/
theorem append_of_leftmost? (found : leftmost? spelling bodies text = some (front, tag, behind)) :
    ∃ place, text = front ++ place ∧ free? spelling bodies place = some (tag, behind) := by
  induction text generalizing front with
  | nil => cases found
  | cons c rest ih =>
      rw [leftmost?] at found
      split at found
      · rename_i free
        cases found
        exact ⟨c :: rest, rfl, free⟩
      · obtain ⟨⟨shorter, later⟩, deeper, same⟩ := Option.map_eq_some_iff.mp found
        cases same
        obtain ⟨place, whole, free⟩ := ih deeper
        exact ⟨place, by rw [whole, List.cons_append], free⟩

theorem isMark_of_isTagMark {c : Char} (mark : isTagMark c = true) : isMark c = true := by
  simp only [isTagMark, isMark, Bool.or_eq_true] at mark ⊢
  exact .inl mark

/-- No tag starts inside a placeholder. -/
theorem countP_numbered (kind : Placeholder) (number : Nat) :
    (kind.numbered number).countP isTagMark = 0 := by
  refine List.countP_eq_zero.mpr fun c member mark => ?_
  have unmarked := Placeholder.isMark_of_mem_numbered member
  rw [isMark_of_isTagMark mark] at unmarked
  cases unmarked

/-- Replacing a tag leaves fewer signs of tags. -/
theorem countP_replaced_lt (found : leftmost? spelling bodies text = some (front, tag, behind))
    (taken : withFilter? tag behind = some (record, rest)) (number : Nat) :
    (front ++ (Placeholder.tag.numbered number ++ rest)).countP isTagMark <
      text.countP isTagMark := by
  obtain ⟨place, rfl, free⟩ := append_of_leftmost? found
  have inner := read?_isRestOf (read?_of_free? free)
  have suffix := (suffix_of_withFilter? taken).trans inner.1
  have shorter := Nat.lt_of_le_of_lt (suffix_of_withFilter? taken).length_le inner.2
  obtain ⟨c, tail, rfl, sign⟩ := eq_cons_of_read? (read?_of_free? free)
  have marked : isTagMark c = true := by rcases sign with rfl | rfl <;> rfl
  have later : rest <:+ tail := List.suffix_of_suffix_length_le suffix (List.suffix_cons c tail)
    (Nat.le_of_lt_succ shorter)
  have fewer : rest.countP isTagMark ≤ tail.countP isTagMark := later.sublist.countP_le
  rw [List.countP_append, List.countP_append, List.countP_append, countP_numbered,
    List.countP_cons_of_pos marked]
  omega

/-- Replaces the leftmost tag reference in one spelling that no attribute owns, together with a data
filter directly behind it, by the next placeholder, and starts again from the start of the new
text. -/
def rescan (spelling : Spelling) (text : Text) (known : List TagReference) :
    Extraction TagReference :=
  match _ : leftmost? spelling (OwnedBody.ofClause text) text with
  | none => ⟨.ok text, known⟩
  | some (front, tag, behind) =>
      match _ : withFilter? tag behind with
      | none => ⟨.error ⟨.dataFilter, tag.name, text.bytesBefore behind, .clause⟩, known⟩
      | some (record, rest) =>
          rescan spelling (front ++ (Placeholder.tag.numbered known.length ++ rest))
            (known ++ [record])
termination_by text.countP isTagMark
decreasing_by
  rename_i found taken
  exact countP_replaced_lt found taken known.length

/-- Where no free tag is left, nothing is replaced. -/
theorem rescan_of_none (settled : leftmost? spelling (OwnedBody.ofClause text) text = none) :
    rescan spelling text known = ⟨.ok text, known⟩ := by
  rw [rescan]
  split
  · rfl
  · rename_i found
    rw [settled] at found
    cases found

/-- A tag whose data filter is not closed ends the work. -/
theorem rescan_of_unclosed
    (found : leftmost? spelling (OwnedBody.ofClause text) text = some (front, tag, behind))
    (unclosed : withFilter? tag behind = none) :
    rescan spelling text known =
      ⟨.error ⟨.dataFilter, tag.name, text.bytesBefore behind, .clause⟩, known⟩ := by
  rw [rescan]
  split
  · rename_i settled
    rw [settled] at found
    cases found
  · rename_i other
    rw [other] at found
    cases found
    split
    · rfl
    · rename_i taken
      rw [unclosed] at taken
      cases taken

/-- The leftmost free tag is replaced, and the search starts again. -/
theorem rescan_of_taken
    (found : leftmost? spelling (OwnedBody.ofClause text) text = some (front, tag, behind))
    (taken : withFilter? tag behind = some (record, rest)) :
    rescan spelling text known =
      rescan spelling (front ++ (Placeholder.tag.numbered known.length ++ rest))
        (known ++ [record]) := by
  rw [rescan]
  split
  · rename_i settled
    rw [settled] at found
    cases found
  · rename_i other
    rw [other] at found
    cases found
    split
    · rename_i unclosed
      rw [unclosed] at taken
      cases taken
    · rename_i other
      rw [other] at taken
      cases taken
      rfl

/-- When starting again comes to an end, no tag is left that attributes do not own. -/
theorem leftmost?_of_rescan {result : Text} {records : List TagReference}
    (ends : rescan spelling text known = ⟨.ok result, records⟩) :
    leftmost? spelling (OwnedBody.ofClause result) result = none := by
  fun_induction rescan spelling text known with
  | case1 text known settled =>
      cases ends
      exact settled
  | case2 => cases ends
  | case3 _ _ _ _ _ _ _ _ _ ih => exact ih ends

/-- Behind a text in which no tag is free, the leftmost tag is the leftmost one of the rest. -/
theorem leftmost?_append
    (settled : ∀ earlier later, front = earlier ++ later → later ≠ [] →
      free? spelling bodies (later ++ rest) = none) :
    leftmost? spelling bodies (front ++ rest) =
      (leftmost? spelling bodies rest).map fun found => (front ++ found.1, found.2) := by
  induction front with
  | nil => simp
  | cons c front ih =>
      have later := ih fun earlier later same filled =>
        settled (c :: earlier) later (by rw [same, List.cons_append]) filled
      have here := settled [] (c :: front) rfl (List.cons_ne_nil c front)
      rw [List.cons_append] at here ⊢
      rw [leftmost?, here, later, Option.map_map]
      rfl

/-- A free tag at the start of a text is the leftmost one. -/
theorem leftmost?_of_free? (free : free? spelling bodies text = some (tag, behind)) :
    leftmost? spelling bodies text = some ([], tag, behind) := by
  obtain ⟨c, rest, rfl, _⟩ := eq_cons_of_read? (read?_of_free? free)
  rw [leftmost?, free]

/-- No tag is free in a text that has no leftmost one. -/
theorem free?_of_leftmost? {place : Text} (settled : leftmost? spelling bodies text = none)
    (suffix : place <:+ text) : free? spelling bodies place = none := by
  induction text with
  | nil =>
      rw [List.suffix_nil.mp suffix]
      unfold free?
      split <;> rfl
  | cons c rest ih =>
      rw [leftmost?] at settled
      split at settled
      · cases settled
      · rename_i unread
        rcases List.suffix_cons_iff.mp suffix with rfl | behind
        · exact unread
        · exact ih (Option.map_eq_none_iff.mp settled) behind

/-- A tag is free where it is read and no attribute owns the place. -/
theorem free?_eq_some_iff {place : Text} (whole : text = front ++ place) :
    free? spelling (OwnedBody.ofClause text) place = some (tag, behind) ↔
      read? spelling place = some (tag, behind) ∧ ∀ owner, ¬ OwnedBy owner front := by
  rw [free?, Option.ite_none_left_eq_some, and_comm]
  refine and_congr_right fun read => ?_
  rw [whole, owning?_isSome_iff (Option.isSome_iff_exists.mpr ⟨_, read⟩), not_exists]

/-- Attributes own all tags that are read in a text where it stands in front of another one. -/
def Settled (spelling : Spelling) (front rest : Text) : Prop :=
  ∀ earlier later, front = earlier ++ later → later ≠ [] →
    (read? spelling (later ++ rest)).isSome → ∃ owner, OwnedBy owner earlier

theorem settled_nil : Settled spelling [] rest := by
  intro earlier later split filled
  exact (filled (List.append_eq_nil_iff.mp split.symm).2).elim

/-- What is settled stays settled when all tags behind it are owned. -/
theorem Settled.append {middle : Text} (settled : Settled spelling front (middle ++ rest))
    (more : ∀ earlier later, middle = earlier ++ later → later ≠ [] →
      (read? spelling (later ++ rest)).isSome → ∃ owner, OwnedBy owner (front ++ earlier)) :
    Settled spelling (front ++ middle) rest := by
  intro earlier later split filled read
  rcases List.append_eq_append_iff.mp split with ⟨begun, rfl, ends⟩ | ⟨ended, rfl, ends⟩
  · exact more begun later ends filled read
  · cases ended with
    | nil =>
        rw [List.nil_append] at ends
        subst ends
        obtain ⟨owner, owned⟩ := more [] later rfl filled read
        rw [List.append_nil, List.append_nil] at owned
        exact ⟨owner, owned⟩
    | cons c ended =>
        refine settled earlier (c :: ended) rfl (List.cons_ne_nil c ended) ?_
        rwa [ends, List.append_assoc] at read

/-- The leftmost free tag stands behind what is settled. -/
theorem Settled.leftmost?_eq (settled : Settled spelling front rest) :
    leftmost? spelling (OwnedBody.ofClause (front ++ rest)) (front ++ rest) =
      (leftmost? spelling (OwnedBody.ofClause (front ++ rest)) rest).map
        fun found => (front ++ found.1, found.2) := by
  refine leftmost?_append fun earlier later same filled => ?_
  rw [Option.eq_none_iff_forall_ne_some]
  rintro ⟨tag, behind⟩ free
  have whole : front ++ rest = earlier ++ (later ++ rest) := by rw [same, List.append_assoc]
  obtain ⟨read, unowned⟩ := (free?_eq_some_iff whole).mp free
  obtain ⟨owner, owned⟩ :=
    settled earlier later same filled (Option.isSome_iff_exists.mpr ⟨_, read⟩)
  exact unowned owner owned

/-- What is read in front of a brace does not reach over it. -/
theorem read?_isSome_of_brace {inside : Text}
    (read : (read? spelling (front ++ '{' :: inside)).isSome) (other : Text) :
    (read? spelling (front ++ other)).isSome := by
  obtain ⟨⟨tag, behind⟩, read⟩ := Option.isSome_iff_exists.mp read
  obtain ⟨marks, whole, marked, fits⟩ := spelled_of_read? read
  rw [← List.append_assoc] at whole
  rcases List.append_eq_append_iff.mp whole with ⟨cut, longer, ends⟩ | ⟨more, rfl, _⟩
  · cases cut with
    | nil =>
        rw [List.append_nil] at longer
        rw [← longer, List.append_assoc]
        exact read?_isSome_of_marks marked fits other
    | cons c cut =>
        obtain ⟨rfl, _⟩ := List.cons.inj ends
        have member : '{' ∈ marks ++ tag.toQualifiedName.spelled spelling := by
          rw [longer]
          simp
        cases isTagCharacter_of_mem marked fits member
  · rw [List.append_assoc, List.append_assoc]
    exact read?_isSome_of_marks marked fits (more ++ other)

/-- A placeholder in the place of what follows keeps a text settled, and no tag is read in it. -/
theorem Settled.replaced {place : Text} (settled : Settled spelling front place) (number : Nat)
    (rest : Text) : Settled spelling (front ++ Placeholder.tag.numbered number) rest := by
  refine Settled.append (fun earlier later same filled read => ?_) ?_
  · exact settled earlier later same filled (read?_isSome_of_brace read place)
  · intro earlier later same filled read
    obtain ⟨c, later, rfl⟩ := List.exists_cons_of_ne_nil filled
    obtain ⟨⟨tag, behind⟩, read⟩ := Option.isSome_iff_exists.mp read
    obtain ⟨d, tail, start, sign⟩ := eq_cons_of_read? read
    cases start
    have member : c ∈ Placeholder.tag.numbered number := by
      rw [same]
      simp
    have unmarked := Placeholder.isMark_of_mem_numbered member
    rcases sign with rfl | rfl <;> cases unmarked

/-- What a step replaces is a free tag with a data filter directly behind it. -/
theorem free?_of_reference
    (found : (step spelling clause bodies text).found = .reference record rest) :
    ∃ tag behind, free? spelling bodies text = some (tag, behind) ∧
      withFilter? tag behind = some (record, rest) := by
  rw [found_step] at found
  split at found
  · cases found
  · rename_i tag behind read
    split at found
    · cases found
    · rename_i unowned
      refine ⟨tag, behind, by rw [free?, unowned, read]; rfl, ?_⟩
      unfold withFilter?
      split at found
      · rename_i opened
        rw [if_pos opened]
        split at found
        · cases found
        · rename_i closed
          cases found
          rw [closed]
      · rename_i unopened
        cases found
        rw [if_neg unopened]

/-- A step fails at a free tag whose data filter is never closed. -/
theorem free?_of_fail (found : (step spelling clause bodies text).found = .fail error) :
    ∃ tag behind, free? spelling bodies text = some (tag, behind) ∧
      withFilter? tag behind = none ∧
      error = ⟨.dataFilter, tag.name, clause.bytesBefore behind, .clause⟩ := by
  rw [found_step] at found
  split at found
  · cases found
  · rename_i tag behind read
    split at found
    · cases found
    · rename_i unowned
      split at found
      · rename_i opened
        split at found
        · rename_i unclosed
          cases found
          refine ⟨tag, behind, by rw [free?, unowned, read]; rfl, ?_, rfl⟩
          rw [withFilter?, if_pos opened, unclosed]
        · cases found
      · cases found

theorem read?_of_plain (found : (step spelling clause bodies text).found = .plain) :
    read? spelling text = none := by
  rw [found_step] at found
  split at found
  · assumption
  · split at found
    · cases found
    · split at found
      · split at found <;> cases found
      · cases found

/-- What a step keeps starts with a tag, and no tag filters are closed before its end. -/
theorem read?_of_keep {kept : Text}
    (found : (step spelling clause (OwnedBody.ofClause clause) (kept ++ behind)).found =
      .keep behind) (whole : clause = front ++ (kept ++ behind)) :
    (read? spelling (kept ++ behind)).isSome ∧
      ∀ earlier later, kept = earlier ++ later → later ≠ [] → ')' ∉ earlier := by
  rw [found_step] at found
  split at found
  · cases found
  · rename_i tag after read
    split at found
    · rename_i body owned
      rw [whole] at owned
      obtain ⟨_, ends⟩ := OwnedBody.ownedBy_of_owning? (outside_of_read? read) owned
      rw [Found.keep.injEq, ends] at found
      refine ⟨Option.isSome_iff_exists.mpr ⟨_, read⟩, ?_⟩
      rintro earlier later rfl filled closed
      rw [List.append_assoc, OwnedBody.behind_append_of_mem closed] at found
      have longer := congrArg List.length found
      have positive := List.length_pos_iff.mpr filled
      rw [List.length_append, List.length_append] at longer
      omega
    · split at found
      · split at found <;> cases found
      · cases found

/-- Tags that are read where plain characters stand among the pieces of a clause are in tag filters
of attributes that are plain characters, too. -/
def AnchoredIn (spelling : Spelling) (clause : Text) (pieces : List (Piece TagReference)) : Prop :=
  ∀ front c back place, pieces = front ++ .plain c :: back →
    clause = Piece.sources front ++ place → (read? spelling place).isSome →
      ∃ owner, Piece.Owned owner front

/-- Each tag that a pass skips is in open tag filters of an attribute that the pass leaves in the
text: no data filter that is replaced holds its head. -/
def Anchored (spelling : Spelling) (clause : Text) : Prop :=
  AnchoredIn spelling clause (scan spelling clause).pieces

/-- Starting again has caught up with a pass at a place of a clause: no tag is left in the text that
was written for the pieces in front of it. -/
structure CaughtUp (spelling : Spelling) (clause : Text) (next : Nat)
    (pieces : List (Piece TagReference)) (text : Text) : Prop where
  whole : clause = Piece.sources pieces ++ text
  free : Piece.Free pieces
  settled : Settled spelling (Piece.numbered .tag next pieces) text

variable {next : Nat} {pieces : List (Piece TagReference)}

/-- The search is caught up behind plain characters in which every tag is owned. -/
theorem CaughtUp.append_plain {kept : Text}
    (caught : CaughtUp spelling clause next pieces (kept ++ behind))
    (anchored : ∀ earlier later, kept = earlier ++ later → later ≠ [] →
      (read? spelling (later ++ behind)).isSome →
        ∃ owner, Piece.Owned owner (pieces ++ earlier.map .plain)) :
    CaughtUp spelling clause next (pieces ++ kept.map .plain) behind where
  whole := by rw [caught.whole, Piece.sources_append, Piece.sources_plain, List.append_assoc]
  free := caught.free.append_plain kept
  settled := by
    rw [Piece.numbered_append, Piece.numbered_map_plain]
    refine caught.settled.append fun earlier later same filled read => ?_
    obtain ⟨owner, owned⟩ := anchored earlier later same filled read
    have written := owned.ownedBy_numbered .tag next
    rw [Piece.numbered_append, Piece.numbered_map_plain] at written
    exact ⟨owner, written⟩

/-- The search is caught up behind a reference that no attribute owns. -/
theorem CaughtUp.append_reference {spelled : Text}
    (caught : CaughtUp spelling clause next pieces (spelled ++ behind))
    (unowned : ∀ owner, ¬ OwnedBy owner (Piece.sources pieces)) (record : TagReference) :
    CaughtUp spelling clause next (pieces ++ [.reference spelled record]) behind where
  whole := by
    rw [caught.whole, Piece.sources_append, Piece.sources_reference, List.append_assoc]
  free := caught.free.append_reference unowned spelled record
  settled := by
    rw [Piece.numbered_append, Piece.numbered, Piece.numbered, List.append_nil]
    exact caught.settled.replaced _ behind

/-- A tag that a pass comes to is the leftmost one of the text at which starting again has caught up
with the pass. -/
theorem CaughtUp.leftmost?_eq (caught : CaughtUp spelling clause next pieces text)
    (free : free? spelling (OwnedBody.ofClause clause) text = some (tag, behind)) :
    (∀ owner, ¬ OwnedBy owner (Piece.sources pieces)) ∧
      leftmost? spelling (OwnedBody.ofClause (Piece.numbered .tag next pieces ++ text))
        (Piece.numbered .tag next pieces ++ text) =
          some (Piece.numbered .tag next pieces, tag, behind) := by
  obtain ⟨read, unowned⟩ := (free?_eq_some_iff caught.whole).mp free
  refine ⟨unowned, ?_⟩
  have again : free? spelling (OwnedBody.ofClause (Piece.numbered .tag next pieces ++ text)) text =
      some (tag, behind) := (free?_eq_some_iff rfl).mpr
    ⟨read, fun owner owned => unowned owner (caught.free.ownedBy_sources owned)⟩
  rw [caught.settled.leftmost?_eq, leftmost?_of_free? again, Option.map_some, List.append_nil]

/-- **Starting again follows a pass** from a place at which it has caught up to the end. -/
theorem CaughtUp.agrees {scan total : Scan TagReference}
    (reads : Scan.Reads (step spelling clause (OwnedBody.ofClause clause)) text scan)
    (caught : CaughtUp spelling clause known.length pieces text)
    (all : scan.prepend pieces = total) (anchored : AnchoredIn spelling clause total.pieces) :
    (Extraction.ofScan .tag known total).Agrees
      (rescan spelling (Piece.numbered .tag known.length pieces ++ text)
        (known ++ Piece.records pieces)) := by
  induction reads generalizing pieces with
  | nil =>
      have ends := caught.settled.leftmost?_eq
      rw [leftmost?, Option.map_none] at ends
      rw [← all, rescan_of_none ends, Extraction.ofScan, Scan.prepend, List.append_nil,
        List.append_nil]
      exact .ok _ _
  | @plain c rest scan found _ ih =>
      have further : CaughtUp spelling clause known.length (pieces ++ [c].map .plain) rest := by
        refine CaughtUp.append_plain caught fun earlier later same filled read => ?_
        cases earlier with
        | nil =>
            rw [List.nil_append] at same
            rw [← same, List.singleton_append, read?_of_plain found] at read
            cases read
        | cons d earlier => simp_all
      have agrees := ih further (by rw [← all, Scan.prepend_prepend]; rfl)
      rw [Piece.numbered_append, Piece.numbered_map_plain, Piece.records_append,
        Piece.records_map_plain, List.append_nil, List.append_assoc] at agrees
      exact agrees
  | @keep kept behind scan filled found _ ih =>
      -- Only the tag at the start is known to be anchored; its tag filters hold the others, too.
      obtain ⟨read, unclosed⟩ := read?_of_keep found caught.whole
      obtain ⟨c, more, rfl⟩ := List.exists_cons_of_ne_nil filled
      have split : total.pieces = pieces ++ .plain c :: (more.map .plain ++ scan.pieces) := by
        rw [← all]
        rfl
      obtain ⟨owner, owned⟩ := anchored pieces c _ _ split caught.whole read
      have further : CaughtUp spelling clause known.length (pieces ++ (c :: more).map .plain)
          behind :=
        caught.append_plain fun earlier later same filled _ =>
          ⟨owner, owned.append_plain (unclosed earlier later same filled)⟩
      have agrees := ih further (by rw [← all, Scan.prepend_prepend])
      rw [Piece.numbered_append, Piece.numbered_map_plain, Piece.records_append,
        Piece.records_map_plain, List.append_nil, List.append_assoc] at agrees
      exact agrees
  | @reference spelled behind record scan filled found _ ih =>
      obtain ⟨tag, after, free, taken⟩ := free?_of_reference found
      obtain ⟨unowned, again⟩ := caught.leftmost?_eq free
      have further := caught.append_reference unowned record
      have agrees := ih further (by rw [← all, Scan.prepend_prepend])
      rw [Piece.numbered_append, Piece.records_append, List.append_assoc, ← List.append_assoc known]
        at agrees
      rw [rescan_of_taken again taken, List.length_append]
      rwa [Piece.numbered, Piece.numbered, List.append_nil] at agrees
  | @fail text error filled found =>
      obtain ⟨tag, after, free, unclosed, rfl⟩ := free?_of_fail found
      rw [rescan_of_unclosed (caught.leftmost?_eq free).2 unclosed, ← all]
      exact .error _ _ rfl rfl

/-- What is left behind a plain character of a pass is what the pieces behind it spell. -/
theorem eq_of_plain {front back : List (Piece TagReference)} {c : Char} {place : Text}
    (unfailed : (scan spelling clause).failure = none)
    (split : (scan spelling clause).pieces = front ++ .plain c :: back)
    (whole : clause = Piece.sources front ++ place) : place = c :: Piece.sources back := by
  have sources := sources_scan unfailed
  rw [split, Piece.sources_append, Piece.sources_cons_plain] at sources
  exact (List.append_cancel_left (sources.trans whole)).symm

/-- A tag that a pass skips is read as plain characters: a reference inside of it would stand in the
same tag filters. -/
theorem plain_of_skipped {front back : List (Piece TagReference)} {c : Char}
    (unfailed : (scan spelling clause).failure = none)
    (split : (scan spelling clause).pieces = front ++ .plain c :: back)
    (read : read? spelling (c :: Piece.sources back) = some (tag, behind)) :
    ∃ marks later, .plain c :: back =
        (marks ++ tag.toQualifiedName.spelled spelling).map .plain ++ later ∧
      TagModifiers.Marks marks tag.toTagModifiers ∧ tag.toQualifiedName.Fits spelling := by
  obtain ⟨owner, owned⟩ := ownedBy_of_plain unfailed split (Option.isSome_iff_exists.mpr ⟨_, read⟩)
  obtain ⟨marks, spelled, marked, fits⟩ := spelled_of_read? read
  rw [← List.append_assoc] at spelled
  have unstarted : ∀ earlier other record later,
      .plain c :: back = earlier ++ .reference other record :: later →
        (marks ++ tag.toQualifiedName.spelled spelling).length ≤
          (Piece.sources earlier).length := by
    intro earlier other record later inner
    by_contra shorter
    have parts : Piece.sources (.plain c :: back) = _ := spelled
    rw [inner, Piece.sources_append, Piece.sources_cons_reference] at parts
    -- No parenthesis is in a tag, so the owner of its start owns the place of the reference.
    have inside : ')' ∉ Piece.sources earlier := by
      intro closed
      rcases List.append_eq_append_iff.mp parts with ⟨cut, same, _⟩ | ⟨cut, longer, _⟩
      · cases isTagCharacter_of_mem marked fits (same ▸ List.mem_append_left cut closed)
      · simp only [longer, List.length_append] at shorter
        omega
    rw [inner, ← List.append_assoc] at split
    have unowned : ¬ OwnedBy owner (Piece.sources (front ++ earlier)) :=
      not_ownedBy_of_reference unfailed split
    rw [Piece.sources_append] at unowned
    exact unowned (owned.append inside)
  obtain ⟨later, plain, _⟩ := Piece.eq_plain_of_unstarted unstarted spelled
  exact ⟨marks, later, plain, marked, fits⟩

/-- When no tag is left in what a pass writes, the tags that it has skipped are anchored. -/
theorem anchored_of_leftmost? (unfailed : (scan spelling clause).failure = none)
    (ends : leftmost? spelling
      (OwnedBody.ofClause (Piece.numbered .tag next (scan spelling clause).pieces))
      (Piece.numbered .tag next (scan spelling clause).pieces) = none) :
    Anchored spelling clause := by
  intro front c back place split whole read
  obtain rfl := eq_of_plain unfailed split whole
  obtain ⟨⟨tag, behind⟩, read⟩ := Option.isSome_iff_exists.mp read
  obtain ⟨marks, later, plain, marked, fits⟩ := plain_of_skipped unfailed split read
  have written : Piece.numbered .tag next (scan spelling clause).pieces =
      Piece.numbered .tag next front ++ (marks ++ (tag.toQualifiedName.spelled spelling ++
        Piece.numbered .tag (next + (Piece.records front).length) later)) := by
    rw [split, plain, Piece.numbered_append, Piece.numbered_map_plain_append, List.append_assoc]
  by_contra unanchored
  have unowned : ∀ owner, ¬ OwnedBy owner (Piece.numbered .tag next front) := by
    intro owner owned
    have free := free_scan unfailed
    rw [split] at free
    exact unanchored ⟨owner, free.of_append.owned_of_numbered owned⟩
  obtain ⟨⟨other, rest⟩, again⟩ := Option.isSome_iff_exists.mp (read?_isSome_of_marks marked fits
    (Piece.numbered .tag (next + (Piece.records front).length) later))
  have free := (free?_eq_some_iff written).mpr ⟨again, unowned⟩
  rw [free?_of_leftmost? ends ⟨_, written.symm⟩] at free
  cases free

/-- A pass anchors all tags that it skips when no data filter that it replaces holds the sign of an
attribute. -/
theorem anchored_of_unsigned (unfailed : (scan spelling clause).failure = none)
    (unsigned : ∀ spelled ∈ Piece.spellings (scan spelling clause).pieces, '@' ∉ spelled) :
    Anchored spelling clause := by
  intro front c back place split whole read
  obtain rfl := eq_of_plain unfailed split whole
  obtain ⟨owner, owned⟩ := ownedBy_of_plain unfailed split read
  exact ⟨owner, owned_of_unsigned unsigned unfailed split owned⟩

/-- **A pass and starting again agree** when the tags that the pass skips are anchored, and when the
pass succeeds, they agree only then. -/
theorem extractSpelling_agrees_rescan (spelling : Spelling) (clause : Text)
    (known : List TagReference) :
    (Anchored spelling clause →
      (extractSpelling spelling clause known).Agrees (rescan spelling clause known)) ∧
    ∀ text, (extractSpelling spelling clause known).clause = .ok text →
      (extractSpelling spelling clause known).Agrees (rescan spelling clause known) →
        Anchored spelling clause := by
  constructor
  · intro anchored
    have start : CaughtUp spelling clause known.length [] clause :=
      ⟨rfl, Piece.free_nil, settled_nil⟩
    have agrees := start.agrees (Scan.reads_ofSteps _ clause) rfl anchored
    have unrecorded : Piece.records ([] : List (Piece TagReference)) = [] := rfl
    rwa [Piece.numbered, List.nil_append, unrecorded, List.append_nil] at agrees
  · intro text extracted agrees
    have same := agrees.eq_of_ok extracted
    rw [extractSpelling, ← scan, Extraction.ofScan] at extracted same
    cases failed : (scan spelling clause).failure with
    | some error =>
        rw [failed] at extracted
        cases extracted
    | none =>
        rw [failed] at same
        exact anchored_of_leftmost? failed (leftmost?_of_rescan same)

/-- A data filter changes nothing as long as it leaves the heads of attributes in the text. -/
theorem extractSpelling_agrees_rescan_filter :
    Anchored .plain "@x.On(#c) #a\x7b.y > 1\x7d".toList ∧
      (extractSpelling .plain "@x.On(#c) #a\x7b.y > 1\x7d".toList []).clause =
        .ok "@x.On(#c) {tag0}".toList ∧
      (extractSpelling .plain "@x.On(#c) #a\x7b.y > 1\x7d".toList []).Agrees
        (rescan .plain "@x.On(#c) #a\x7b.y > 1\x7d".toList []) := by
  have unfailed : (scan .plain "@x.On(#c) #a\x7b.y > 1\x7d".toList).failure = none := by
    decide +kernel
  have anchored : Anchored .plain "@x.On(#c) #a\x7b.y > 1\x7d".toList :=
    anchored_of_unsigned unfailed (by decide +kernel)
  have extracted : (extractSpelling .plain "@x.On(#c) #a\x7b.y > 1\x7d".toList []).clause =
      .ok "@x.On(#c) {tag0}".toList := by decide +kernel
  have both := extractSpelling_agrees_rescan .plain "@x.On(#c) #a\x7b.y > 1\x7d".toList []
  exact ⟨both.2 _ extracted (both.1 anchored), extracted, both.1 anchored⟩

/-- They part where the tag filters in a data filter are open up to a later parenthesis: the pass
skips what stands in front of it, although the attribute is gone. -/
theorem extractSpelling_not_agrees_rescan :
    (extractSpelling .plain "#a\x7b@b.On(\x7d #c)".toList []).clause =
        .ok "{tag0} #c)".toList ∧
      (rescan .plain "#a\x7b@b.On(\x7d #c)".toList []).clause = .ok "{tag0} {tag1})".toList ∧
      ¬ (extractSpelling .plain "#a\x7b@b.On(\x7d #c)".toList []).Agrees
        (rescan .plain "#a\x7b@b.On(\x7d #c)".toList []) := by
  have once : (extractSpelling .plain "#a\x7b@b.On(\x7d #c)".toList []).clause =
      .ok "{tag0} #c)".toList := by decide +kernel
  have again : (rescan .plain "#a\x7b@b.On(\x7d #c)".toList []).clause =
      .ok "{tag0} {tag1})".toList := by decide +kernel
  refine ⟨once, again, fun agrees => ?_⟩
  rw [agrees.eq_of_ok once, once] at again
  exact absurd again (by decide)

end TagReference

end NoteQuery
