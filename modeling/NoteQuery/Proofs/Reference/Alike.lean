import NoteQuery.Proofs.Reference.Ownership
import NoteQuery.Proofs.Reference.Tag
import NoteQuery.Proofs.Scan.Alike

/-! # References in texts that are alike

References are read alike from texts that are alike: the same names and modifiers, data filters that
close at corresponding places, and bodies that are owned at corresponding places. So the steps of
both extractions find alike things (`TagReference.found_alike`, `AttributeReference.found_alike`).
-/

namespace NoteQuery

variable {text text' behind : Text}

/-- Modifiers are read from the same marks. -/
theorem TagModifiers.read?_alike (alike : text.Alike text') {modifiers : TagModifiers}
    (read : read? text = some (modifiers, behind)) :
    ∃ marks behind', text = marks ++ behind ∧ text' = marks ++ behind' ∧
      read? text' = some (modifiers, behind') ∧ behind.Alike behind' := by
  obtain ⟨early, tail, front⟩ : ∃ early tail, Text.skipOptional '~' text = (early, tail) :=
    ⟨_, _, rfl⟩
  obtain ⟨tail', front', alike⟩ := Text.skipOptional_alike (by decide) alike front
  have cut := (Text.skipOptional_eq_iff.mp front).1
  have cut' := (Text.skipOptional_eq_iff.mp front').1
  simp only [read?, front] at read
  cases run : Text.run? (· == '#') tail with
  | none =>
      simp only [run, Option.ite_none_right_eq_some, Option.some.injEq, Prod.mk.injEq] at read
      obtain ⟨rfl, rfl, rfl⟩ := read
      have run' := Text.run?_alike_none alike run
      exact ⟨_, tail', cut, cut', by simp only [read?, front', run', ↓reduceIte], alike⟩
  | some found =>
      obtain ⟨hashes, rest⟩ := found
      obtain ⟨rest', run', alike⟩ := Text.run?_alike (by decide) alike run
      obtain ⟨relaxed, second, middle⟩ :
          ∃ relaxed tail, Text.skipOptional '?' rest = (relaxed, tail) := ⟨_, _, rfl⟩
      obtain ⟨second', middle', alike⟩ := Text.skipOptional_alike (by decide) alike middle
      obtain ⟨late, third, back⟩ : ∃ late tail, Text.skipOptional '~' second = (late, tail) :=
        ⟨_, _, rfl⟩
      obtain ⟨third', back', alike⟩ := Text.skipOptional_alike (by decide) alike back
      simp only [run, middle, back, Option.some.injEq, Prod.mk.injEq] at read
      obtain ⟨rfl, rfl⟩ := read
      refine ⟨Text.optional '~' early ++ (hashes ++ (Text.optional '?' relaxed ++
        Text.optional '~' late)), third', ?_, ?_, ?_, alike⟩
      · rw [cut, Text.run?_eq_some_append run, (Text.skipOptional_eq_iff.mp middle).1,
          (Text.skipOptional_eq_iff.mp back).1]
        simp only [List.append_assoc]
      · rw [cut', Text.run?_eq_some_append run', (Text.skipOptional_eq_iff.mp middle').1,
          (Text.skipOptional_eq_iff.mp back').1]
        simp only [List.append_assoc]
      · simp only [read?, front', run', middle', back']

/-- A name ends at corresponding places. -/
theorem QualifiedName.EndsAt.alike {qualifies : Text → Bool}
    (same : ∀ first second : Text, first.Alike second → qualifies first = qualifies second)
    {name : QualifiedName} (ends : name.EndsAt qualifies text) (alike : text.Alike text') :
    name.EndsAt qualifies text' := by
  refine ⟨?_, ?_, ?_⟩
  · rw [← alike.head?_eq]
    exact ends.stops
  · intro spaced
    rw [← same text text' alike]
    exact ends.qualified spaced
  · intro plain rest second more whole run
    subst whole
    have back : Text.Alike (['.'] ++ rest) text := alike.symm
    obtain ⟨rest', rfl, later⟩ := back.split_front (by decide)
    obtain ⟨more', run', last⟩ := Text.run?_alike (show isWord '{' = false by decide) later run
    rw [same more more' last]
    exact ends.unqualified plain rest' second more' rfl run'

/-- No name holds an opening brace. -/
theorem QualifiedName.Fits.not_mem_brace {spelling : Spelling} {name : QualifiedName}
    (fits : name.Fits spelling) : '{' ∉ name.spelled spelling := by
  intro member
  cases fits.isNameCharacter member

/-- The same name is read. -/
theorem QualifiedName.read?_alike {spelling : Spelling} {qualifies : Text → Bool}
    (same : ∀ first second : Text, first.Alike second → qualifies first = qualifies second)
    (alike : text.Alike text') {name : QualifiedName}
    (read : read? spelling qualifies text = some (name, behind)) :
    ∃ behind', read? spelling qualifies text' = some (name, behind') ∧ behind.Alike behind' := by
  obtain ⟨rfl, fits, ends⟩ := read?_eq_some_iff.mp read
  obtain ⟨behind', rfl, rest⟩ := alike.split_front fits.not_mem_brace
  exact ⟨behind', read?_eq_some_iff.mpr ⟨rfl, fits, fun plain => (ends plain).alike same rest⟩,
    rest⟩

/-- The same tag reference is read from the same spelling. -/
theorem TagReference.read?_alike {spelling : Spelling} (alike : text.Alike text')
    {tag : TagReference} (read : read? spelling text = some (tag, behind)) :
    ∃ spelled behind', text = spelled ++ behind ∧ text' = spelled ++ behind' ∧
      read? spelling text' = some (tag, behind') ∧ behind.Alike behind' := by
  unfold read? at read
  split at read
  · cases read
  · rename_i modifiers rest modified
    obtain ⟨marks, rest', rfl, rfl, modified', alike⟩ := TagModifiers.read?_alike alike modified
    split at read
    · cases read
    · rename_i name after named
      simp only [Option.some.injEq, Prod.mk.injEq] at read
      obtain ⟨rfl, rfl⟩ := read
      obtain ⟨behind', named', alike⟩ := QualifiedName.read?_alike (fun _ _ _ => rfl) alike named
      refine ⟨marks ++ name.spelled spelling, behind', ?_, ?_, ?_, alike⟩
      · rw [(QualifiedName.read?_eq_some_iff.mp named).1, List.append_assoc]
      · rw [(QualifiedName.read?_eq_some_iff.mp named').1, List.append_assoc]
      · simp only [read?, modified', named']

/-- Where no tag is read, none is read from a text that is alike. -/
theorem TagReference.read?_alike_none {spelling : Spelling} (alike : text.Alike text')
    (unread : read? spelling text = none) : read? spelling text' = none := by
  cases read : read? spelling text' with
  | none => rfl
  | some result =>
      obtain ⟨_, _, _, _, read', _⟩ := read?_alike alike.symm read
      rw [unread] at read'
      cases read'

/-- The same head of an attribute reference is read. -/
theorem AttributeHead.read?_alike {spelling : Spelling} (alike : text.Alike text')
    {head : AttributeHead} (read : read? spelling text = some (head, behind)) :
    ∃ behind', read? spelling text' = some (head, behind') ∧ behind.Alike behind' := by
  unfold read? at read
  split at read
  · rename_i text
    have sign : Text.Alike (['@'] ++ text) text' := alike
    obtain ⟨text', rfl, later⟩ := sign.split_front (by decide)
    split at read
    · cases read
    · rename_i name rest named
      have same (first second : Text) (alike : first.Alike second) :
          (first.head? != some '(') = (second.head? != some '(') := by rw [alike.head?_eq]
      obtain ⟨rest', named', alike⟩ := QualifiedName.read?_alike same later named
      split at read
      · rename_i skipped
        cases read
        obtain ⟨behind', skipped', alike⟩ := Text.isPrefixOf?_alike (by decide) alike skipped
        refine ⟨behind', ?_, alike⟩
        simp only [List.cons_append, List.nil_append, read?, named', skipped']
      · rename_i unskipped
        cases read
        have unskipped' : existsSuffix.isPrefixOf? rest' = none := by
          cases skipped : existsSuffix.isPrefixOf? rest' with
          | none => rfl
          | some more =>
              obtain ⟨_, skipped', _⟩ := Text.isPrefixOf?_alike (by decide) alike.symm skipped
              rw [unskipped] at skipped'
              cases skipped'
        refine ⟨rest', ?_, alike⟩
        simp only [List.cons_append, List.nil_append, read?, named', unskipped']
  · cases read

/-- Where no head is read, none is read from a text that is alike. -/
theorem AttributeHead.read?_alike_none {spelling : Spelling} (alike : text.Alike text')
    (unread : read? spelling text = none) : read? spelling text' = none := by
  cases read : read? spelling text' with
  | none => rfl
  | some result =>
      obtain ⟨_, read', _⟩ := read?_alike alike.symm read
      rw [unread] at read'
      cases read'

/-- Corresponding places are owned alike. -/
theorem AttributeHead.OwnedBy.alike {owner : Spelling} {front front' : Text}
    (owned : OwnedBy owner front) (alike : front.Alike front') : OwnedBy owner front' := by
  obtain ⟨before, head, inside, rfl, fits, unclosed⟩ := owned
  obtain ⟨before', rest', rfl, _, later⟩ := alike.split_outer (c := '@') (by decide) (by decide)
  have opened : Text.Alike ((head.toQualifiedName.spelled owner ++ head.suffix ++ filtersOpening) ++
      inside) rest' := by
    rw [List.append_assoc]
    exact later
  have unbraced : '{' ∉ head.toQualifiedName.spelled owner ++ head.suffix ++ filtersOpening := by
    simp only [List.mem_append, not_or]
    exact ⟨⟨fits.not_mem_brace, fun member => absurd (mem_suffix member) (by decide)⟩, by decide⟩
  obtain ⟨inside', rfl, within⟩ := opened.split_front unbraced
  refine ⟨before', head, inside', ?_, fits, ?_⟩
  · rw [spelled]
    simp only [List.cons_append, List.append_assoc]
  · intro closed
    exact unclosed (within.symm.mem_of_outer (by decide) (by decide) closed)

/-- What is owned from corresponding places on is alike. -/
theorem OwnedBody.behind_alike (alike : text.Alike text') :
    ∃ kept kept', text = kept ++ OwnedBody.behind text ∧ text' = kept' ++ OwnedBody.behind text' ∧
      kept.Alike kept' ∧ (OwnedBody.behind text).Alike (OwnedBody.behind text') := by
  cases cut : Text.cut? ')' text with
  | none =>
      have cut' := Text.cut?_alike_none (by decide) (by decide) alike cut
      refine ⟨text, text', ?_, ?_, alike, ?_⟩ <;>
        simp only [OwnedBody.behind, cut, cut', List.append_nil]
      exact .nil
  | some result =>
      obtain ⟨front, rest⟩ := result
      obtain ⟨front', rest', cut', before, after⟩ :=
        Text.cut?_alike (by decide) (by decide) alike cut
      have left : OwnedBody.behind text = rest := by simp only [OwnedBody.behind, cut]
      have left' : OwnedBody.behind text' = rest' := by simp only [OwnedBody.behind, cut']
      rw [left, left']
      refine ⟨front ++ [')'], front' ++ [')'], ?_, ?_, before.append (.refl _), after⟩
      · rw [Text.cut?_eq_some_append cut, List.append_assoc]
        rfl
      · rw [Text.cut?_eq_some_append cut', List.append_assoc]
        rfl

theorem Placeholder.read?_isSome_alike {kind : Placeholder} (alike : text.Alike text')
    (read : (kind.read? text).isSome) : (kind.read? text').isSome := by
  obtain ⟨numeral, read⟩ := Option.isSome_iff_exists.mp read
  cases alike with
  | nil => cases read
  | @cons c first second later =>
      obtain ⟨⟨rest, whole⟩, filled, digits⟩ := read?_eq_some_iff.mp read
      obtain ⟨rfl, rfl⟩ := List.cons.inj whole
      have front : Text.Alike (kind.word ++ numeral ++ ['}'] ++ rest) second := by
        simpa only [List.append_assoc, List.cons_append, List.nil_append] using later
      have unbraced : '{' ∉ kind.word ++ numeral ++ ['}'] := by
        simp only [List.mem_append, not_or]
        refine ⟨⟨by cases kind <;> decide, fun member => ?_⟩, by decide⟩
        cases digits _ member
      obtain ⟨rest', rfl, _⟩ := front.split_front unbraced
      rw [read?_eq_some_iff.mpr ⟨⟨rest', by simp⟩, filled, digits⟩]
      rfl
  | placeholder other number number' later =>
      by_cases same : other = kind
      · rw [same, read?_numbered]
        rfl
      · rw [read?_numbered_of_ne same] at read
        cases read

namespace DataFilter

/-- Data filters open at corresponding places. -/
theorem opens_alike (alike : text.Alike text') : opens text = opens text' := by
  have placeholders : Placeholder.tag.startsText text = Placeholder.tag.startsText text' := by
    rw [Placeholder.startsText_eq, Placeholder.startsText_eq, Bool.eq_iff_iff]
    exact ⟨Placeholder.read?_isSome_alike alike, Placeholder.read?_isSome_alike alike.symm⟩
  rw [opens, opens, alike.head?_eq, placeholders]

theorem close?_cons (inner : Nat) (c : Char) (rest : Text) :
    close? inner (c :: rest) =
      if c = '{' then (close? (inner + 1) rest).map fun (body, behind) => (c :: body, behind)
      else if c = '}' then
        match inner with
        | 0 => some ([], rest)
        | inner + 1 => (close? inner rest).map fun (body, behind) => (c :: body, behind)
      else (close? inner rest).map fun (body, behind) => (c :: body, behind) :=
  close?.eq_def inner (c :: rest)

/-- Text without braces belongs to the body. -/
theorem close?_append {front : Text} (unbraced : ∀ c ∈ front, c ≠ '{' ∧ c ≠ '}') (inner : Nat)
    (text : Text) :
    close? inner (front ++ text) =
      (close? inner text).map fun (body, behind) => (front ++ body, behind) := by
  induction front with
  | nil => simp
  | cons c front ih =>
      have later := ih fun d member => unbraced d (List.mem_cons_of_mem _ member)
      obtain ⟨unopened, unclosed⟩ := unbraced c List.mem_cons_self
      rw [List.cons_append, close?_cons, if_neg unopened, if_neg unclosed, later]
      cases close? inner text <;> rfl

theorem numeral_unbraced (kind : Placeholder) (number : Nat) :
    ∀ c ∈ kind.word ++ Text.ofNat number, c ≠ '{' ∧ c ≠ '}' := by
  intro c member
  rcases List.mem_append.mp member with named | digit
  · cases kind <;> simp only [Placeholder.word, List.mem_cons, List.not_mem_nil, or_false] at named
      <;> rcases named with rfl | rfl | rfl | rfl <;> decide
  · have decimal := Placeholder.isDigit_of_mem_ofNat digit
    constructor <;> rintro rfl <;> cases decimal

/-- A placeholder closes the brace that it opens. -/
theorem close?_tail (kind : Placeholder) (number : Nat) (text : Text) :
    close? 0 ((kind.numbered number).tail ++ text) =
      some (kind.word ++ Text.ofNat number, text) := by
  have whole : (kind.numbered number).tail ++ text =
      kind.word ++ Text.ofNat number ++ '}' :: text := by
    simp only [Placeholder.numbered, List.tail_cons, List.append_assoc, List.cons_append,
      List.nil_append]
  rw [whole, close?_append (numeral_unbraced kind number)]
  simp [close?_cons]

/-- A placeholder belongs to the body. -/
theorem close?_numbered (kind : Placeholder) (number inner : Nat) (text : Text) :
    close? inner (kind.numbered number ++ text) =
      (close? inner text).map fun (body, behind) => (kind.numbered number ++ body, behind) := by
  have whole : kind.numbered number ++ text =
      '{' :: (kind.word ++ Text.ofNat number ++ '}' :: text) := by
    simp only [Placeholder.numbered, List.append_assoc, List.cons_append, List.nil_append]
  rw [whole, close?_cons, if_pos rfl, close?_append (numeral_unbraced kind number), close?_cons,
    if_neg (by decide), if_pos rfl]
  dsimp only
  cases close? inner text with
  | none => rfl
  | some closed => simp [Placeholder.numbered]

/-- Bodies are closed at corresponding places. -/
theorem close?_alike {inner : Nat} {body : Text} (alike : text.Alike text')
    (closed : close? inner text = some (body, behind)) :
    ∃ body' behind', close? inner text' = some (body', behind') ∧ body.Alike body' ∧
      behind.Alike behind' := by
  induction alike generalizing inner body with
  | nil => cases closed
  | @cons c first second rest ih =>
      have step {inner : Nat} {body : Text}
          (closed : (close? inner first).map (fun (body, behind) => (c :: body, behind)) =
            some (body, behind)) :
          ∃ body' behind', (close? inner second).map (fun (body, behind) => (c :: body, behind)) =
            some (body', behind') ∧ body.Alike body' ∧ behind.Alike behind' := by
        simp only [Option.map_eq_some_iff, Prod.exists, Prod.mk.injEq] at closed
        obtain ⟨shorter, _, inside, rfl, rfl⟩ := closed
        obtain ⟨body', behind', closed', before, after⟩ := ih inside
        exact ⟨c :: body', behind', by rw [closed']; rfl, .cons c before, after⟩
      rw [close?_cons] at closed ⊢
      by_cases opened : c = '{'
      · rw [if_pos opened] at closed ⊢
        exact step closed
      · rw [if_neg opened] at closed ⊢
        by_cases closing : c = '}'
        · rw [if_pos closing] at closed ⊢
          cases inner with
          | zero =>
              cases closed
              exact ⟨[], second, rfl, .nil, rest⟩
          | succ inner => exact step closed
        · rw [if_neg closing] at closed ⊢
          exact step closed
  | placeholder kind number number' rest ih =>
      rw [close?_numbered] at closed ⊢
      simp only [Option.map_eq_some_iff, Prod.exists, Prod.mk.injEq] at closed
      obtain ⟨shorter, _, closed, rfl, rfl⟩ := closed
      obtain ⟨body', behind', closed', before, after⟩ := ih closed
      exact ⟨kind.numbered number' ++ body', behind', by rw [closed']; rfl,
        .placeholder kind number number' before, after⟩

/-- Data filters that open at corresponding places close at such. -/
theorem closed_alike {body : Text} (alike : text.Alike text') (opened : opens text = true)
    (closed : close? 0 text.tail = some (body, behind)) :
    ∃ body' behind', close? 0 text'.tail = some (body', behind') ∧
      Text.Alike ('{' :: (body ++ ['}'])) ('{' :: (body' ++ ['}'])) ∧ behind.Alike behind' := by
  cases alike with
  | nil => cases opened
  | cons c rest =>
      obtain ⟨body', behind', closed', before, after⟩ := close?_alike rest closed
      exact ⟨body', behind', closed', .cons _ (before.append (.refl _)), after⟩
  | @placeholder kind number number' first second rest =>
      have tail (number : Nat) (text : Text) : (kind.numbered number ++ text).tail =
          (kind.numbered number).tail ++ text := rfl
      rw [tail, close?_tail] at closed
      cases closed
      refine ⟨_, second, by rw [tail, close?_tail], ?_, rest⟩
      have placeholders := Text.Alike.placeholder kind number number' .nil
      rwa [List.append_nil, List.append_nil] at placeholders

theorem closed_alike_none (alike : text.Alike text') (opened : opens text = true)
    (unclosed : close? 0 text.tail = none) : close? 0 text'.tail = none := by
  cases closed : close? 0 text'.tail with
  | none => rfl
  | some result =>
      rw [opens_alike alike] at opened
      obtain ⟨_, _, closed', _⟩ := closed_alike alike.symm opened closed
      rw [unclosed] at closed'
      cases closed'

/-- A data filter stands in braces. -/
theorem eq_append_of_closed {body : Text} (opened : opens text = true)
    (closed : close? 0 text.tail = some (body, behind)) :
    text = '{' :: (body ++ ['}']) ++ behind := by
  obtain ⟨rest, rfl⟩ := TagReference.eq_brace_cons_of_opens opened
  have whole := close?_eq_some_append closed
  rw [List.tail_cons] at whole
  rw [whole, List.cons_append, List.append_assoc]
  rfl

end DataFilter

/-- A place that is owned has an owned counterpart. -/
theorem OwnedBody.owning?_alike {clause clause' front front' : Text} {body : OwnedBody}
    (whole : clause = front ++ text) (whole' : clause' = front' ++ text')
    (before : front.Alike front') (alike : text.Alike text')
    (outside : ∀ c ∈ text.head?, c ∉ AttributeHead.filtersOpening)
    (owned : owning? (ofClause clause) text.length = some body) :
    text.drop (text.length - body.closing) = OwnedBody.behind text ∧
      ∃ body', owning? (ofClause clause') text'.length = some body' ∧
        text'.drop (text'.length - body'.closing) = OwnedBody.behind text' := by
  subst whole whole'
  obtain ⟨⟨owner, place⟩, closing⟩ := ownedBy_of_owning? outside owned
  have filled : text' ≠ [] := by
    intro empty
    have less := closing_lt_of_owning? owned
    rw [alike.eq_nil_iff.mpr empty, List.length_nil] at less
    exact Nat.not_lt_zero _ less
  obtain ⟨body', owned'⟩ := Option.isSome_iff_exists.mp (owning?_isSome (place.alike before) filled)
  rw [alike.head?_eq] at outside
  exact ⟨closing, body', owned', (ownedBy_of_owning? outside owned').2⟩

namespace TagReference

variable {spelling : Spelling} {clause clause' front front' : Text}

/-- Steps of the tag extraction find alike things at corresponding places. -/
theorem found_alike (whole : clause = front ++ text) (whole' : clause' = front' ++ text')
    (before : front.Alike front') (alike : text.Alike text') :
    FoundAlike text text' (step spelling clause (OwnedBody.ofClause clause) text).found
      (step spelling clause' (OwnedBody.ofClause clause') text').found := by
  rw [found_step, found_step]
  cases read : read? spelling text with
  | none =>
      rw [read?_alike_none alike read]
      exact .plain
  | some result =>
      obtain ⟨tag, behind⟩ := result
      obtain ⟨spelled, behind', cut, cut', read', rest⟩ := read?_alike alike read
      rw [read']
      dsimp only
      cases owned : OwnedBody.owning? (OwnedBody.ofClause clause) text.length with
      | some body =>
          obtain ⟨closing, body', owned', closing'⟩ :=
            OwnedBody.owning?_alike whole whole' before alike (outside_of_read? read) owned
          rw [owned']
          dsimp only
          rw [closing, closing']
          obtain ⟨kept, kept', cut, cut', front, rest⟩ := OwnedBody.behind_alike alike
          exact .keep cut cut' front rest
      | none =>
          have unowned : OwnedBody.owning? (OwnedBody.ofClause clause') text'.length = none := by
            cases owned' : OwnedBody.owning? (OwnedBody.ofClause clause') text'.length with
            | none => rfl
            | some body =>
                obtain ⟨_, _, owned'', _⟩ := OwnedBody.owning?_alike whole' whole before.symm
                  alike.symm (outside_of_read? read') owned'
                rw [owned] at owned''
                cases owned''
          rw [unowned]
          dsimp only
          rw [← DataFilter.opens_alike rest]
          by_cases opened : DataFilter.opens behind = true
          · have opened' := opened
            rw [if_pos opened, if_pos opened]
            cases closed : DataFilter.close? 0 behind.tail with
            | some result =>
                obtain ⟨body, last⟩ := result
                obtain ⟨body', last', closed', within, further⟩ :=
                  DataFilter.closed_alike rest opened closed
                rw [DataFilter.opens_alike rest] at opened'
                rw [DataFilter.eq_append_of_closed opened closed, ← List.append_assoc] at cut
                rw [DataFilter.eq_append_of_closed opened' closed', ← List.append_assoc] at cut'
                rw [closed']
                exact .reference cut cut' (within.append_left spelled) further
            | none =>
                rw [DataFilter.closed_alike_none rest opened closed]
                exact .fail ⟨rfl, rfl⟩
          · rw [if_neg opened, if_neg opened]
            exact .reference cut cut' (.refl spelled) rest

end TagReference

end NoteQuery
