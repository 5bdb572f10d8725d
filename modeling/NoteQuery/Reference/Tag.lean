import NoteQuery.Reference.DataFilter
import NoteQuery.Reference.Ownership

/-! # Tag references

A tag reference is a run of modifiers and a name, as in `##?~Space.Tag`, perhaps with a data filter
behind it. Extracting the tags of a clause replaces them by placeholders, first the plain ones and
then the ones in brackets; the bodies that attributes own are left alone.
-/

namespace NoteQuery

/-- What the modifiers in front of a tag say: how deep to search, whether the depth is strict, and
whether the note that owns the tag is included. -/
structure TagModifiers where
  searchDepth : Nat
  strictSearchDepth : Bool
  includeOwner : Bool
  deriving DecidableEq, Repr

namespace TagModifiers

/-- Reads the modifiers: hash signs, which a tilde may precede and a question mark and a tilde may
follow, or a tilde alone. -/
def read? (text : Text) : Option (TagModifiers × Text) :=
  let (early, rest) := Text.skipOptional '~' text
  match Text.run? (· == '#') rest with
  | none => if early then some (⟨0, true, true⟩, rest) else none
  | some (hashes, rest) =>
      let (relaxed, rest) := Text.skipOptional '?' rest
      let (late, rest) := Text.skipOptional '~' rest
      some (⟨hashes.length, !relaxed, early || late⟩, rest)

/-- The modifiers as they are written in a query. -/
def written (modifiers : TagModifiers) : Text :=
  List.replicate modifiers.searchDepth '#' ++ (if modifiers.strictSearchDepth then [] else ['?']) ++
    (if modifiers.includeOwner then ['~'] else [])

/-- Reading modifiers leaves the end of the text. -/
theorem read?_suffix {text behind : Text} {modifiers : TagModifiers}
    (read : read? text = some (modifiers, behind)) : behind <:+ text := by
  have outer := Text.skipOptional_suffix '~' text
  unfold read? at read
  simp only at read
  split at read
  · simp only [Option.ite_none_right_eq_some, Option.some.injEq, Prod.mk.injEq] at read
    obtain ⟨_, _, rfl⟩ := read
    exact outer
  · rename_i hashes rest run
    simp only [Option.some.injEq, Prod.mk.injEq] at read
    obtain ⟨_, rfl⟩ := read
    exact (Text.skipOptional_suffix '~' _).trans ((Text.skipOptional_suffix '?' rest).trans
      ((Text.isRestOf_of_run? run).1.trans outer))

end TagModifiers

/-- A reference to a tag. -/
structure TagReference extends QualifiedName, TagModifiers where
  filter : Option DataFilter := none
  deriving DecidableEq, Repr

namespace TagReference

/-- Reads a tag reference without its data filter. -/
def read? (spelling : Spelling) (text : Text) : Option (TagReference × Text) :=
  match TagModifiers.read? text with
  | none => none
  | some (modifiers, rest) =>
      match QualifiedName.read? spelling (fun _ => true) rest with
      | none => none
      | some (name, behind) => some ({ name, modifiers with }, behind)

/-- Reading a tag reference takes something. -/
theorem read?_isRestOf {spelling : Spelling} {text behind : Text} {tag : TagReference}
    (read : read? spelling text = some (tag, behind)) : behind.IsRestOf text := by
  unfold read? at read
  split at read
  · simp at read
  · rename_i modifiers rest modified
    split at read
    · simp at read
    · rename_i name after named
      simp only [Option.some.injEq, Prod.mk.injEq] at read
      obtain ⟨_, rfl⟩ := read
      have inner := QualifiedName.read?_isRestOf named
      have outer := TagModifiers.read?_suffix modified
      exact ⟨inner.1.trans outer, Nat.lt_of_lt_of_le inner.2 outer.length_le⟩

/-- Looks for a tag reference in one spelling at the start of a text inside `clause`. One that
starts in one of the owned bodies is passed over together with that body. -/
def step (spelling : Spelling) (clause : Text) (bodies : List OwnedBody) (text : Text) :
    Step TagReference text :=
  match read : read? spelling text with
  | none => .plain
  | some (tag, behind) =>
      match owned : OwnedBody.owning? bodies text.length with
      | some body =>
          .keep (text.drop (text.length - body.closing)) <| by
            have ends := OwnedBody.closing_lt_of_owning? owned
            have some_left := (read?_isRestOf read).2
            refine ⟨List.drop_suffix _ _, ?_⟩
            rw [List.length_drop]
            omega
      | none =>
          if DataFilter.opens behind then
            match closed : DataFilter.close? 0 behind.tail with
            | none => .fail ⟨.dataFilter, tag.name, clause.bytesBefore behind, .clause⟩
            | some (body, rest) =>
                .reference { tag with filter := some (.ofBody body) } rest <|
                  (read?_isRestOf read).of_suffix <|
                    (DataFilter.suffix_of_close? closed).trans (List.tail_suffix behind)
          else .reference tag behind (read?_isRestOf read)

/-- Replaces the references in one spelling by placeholders. -/
def extractSpelling (spelling : Spelling) (clause : Text) (known : List TagReference) :
    Extraction TagReference :=
  .ofScan .tag known (.ofSteps (step spelling clause (OwnedBody.ofClause clause)) clause)

/-- Replaces the tag references of a clause by placeholders, the plain ones first, and appends their
records to those known so far. -/
def extract (clause : Text) (known : List TagReference) : Extraction TagReference :=
  (extractSpelling .plain clause known).andThen (extractSpelling .bracketed)

/-- A tag reference as it is written in a query. -/
def written (tag : TagReference) : Text :=
  tag.toTagModifiers.written ++ tag.toQualifiedName.written ++
    match tag.filter with
    | some filter => '{' :: (filter.written ++ ['}'])
    | none => []

end TagReference

end NoteQuery
