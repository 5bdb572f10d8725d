import NoteQuery.Reference.Tag

/-! # Attribute references

An attribute reference is `@` and a name, perhaps with the suffixes `.Exists()` and `.On(...)`. The
second lists tags, separated by bars, from which the attribute is read. Extracting the attributes of
a clause takes place once its tags are placeholders.
-/

namespace NoteQuery

/-- A reference to an attribute; the tag filters are there only when the reference has the suffix
for them. -/
structure AttributeReference extends AttributeHead where
  tagFilters : Option (List TagReference)
  deriving DecidableEq, Repr

namespace AttributeReference

/-- A fragment of a list of tag filters, with a tilde in front: a tag filter always includes the
owner, and a bare name is a tag. -/
def ownerFragment (fragment : Text) : Text :=
  if fragment.head? = some '~' then fragment else '~' :: fragment

/-- Extracts the tags of some fragments into one list. -/
def extractFragments : List Text → List TagReference → Except QueryError (List TagReference)
  | [], known => .ok known
  | fragment :: rest, known =>
      match TagReference.extract (ownerFragment fragment) known with
      | ⟨.ok _, tags⟩ => extractFragments rest tags
      | ⟨.error error, _⟩ => .error error

/-- Reads the tag filters between the parentheses of the suffix. -/
def readTagFilters (body : Text) : Except QueryError (List TagReference) :=
  extractFragments ((body.splitOn '|').map Text.trim) []

/-- Looks for an attribute reference in one spelling at the start of a text inside `clause`. -/
def step (spelling : Spelling) (clause : Text) (text : Text) : Step AttributeReference text :=
  match read : AttributeHead.read? spelling text with
  | none => .plain
  | some (head, behind) =>
      match opened : AttributeHead.filtersOpening.isPrefixOf? behind with
      | none =>
          .reference { head with tagFilters := none } behind (AttributeHead.read?_isRestOf read)
      | some inside =>
          match closed : Text.cut? ')' inside with
          | none => .fail ⟨.tagFilters, head.name, clause.bytesBefore behind, .clause⟩
          | some (body, rest) =>
              match readTagFilters body with
              | .error error => .fail error
              | .ok filters =>
                  .reference { head with tagFilters := some filters } rest <|
                    (AttributeHead.read?_isRestOf read).of_suffix <|
                      (Text.suffix_of_cut? closed).trans (Text.suffix_of_isPrefixOf? opened)

/-- Replaces the references in one spelling by placeholders. -/
def extractSpelling (spelling : Spelling) (clause : Text) (known : List AttributeReference) :
    Extraction AttributeReference :=
  .ofScan .attribute known (.ofSteps (step spelling clause) clause)

/-- Replaces the attribute references of a clause by placeholders, the plain ones first, and appends
their records to those known so far. -/
def extract (clause : Text) (known : List AttributeReference) : Extraction AttributeReference :=
  (extractSpelling .plain clause known).andThen (extractSpelling .bracketed)

/-- An attribute reference as it is written in a query. -/
def written (reference : AttributeReference) : Text :=
  '@' :: (reference.toQualifiedName.written ++
    (if reference.mustExist then AttributeHead.existsSuffix else []) ++
    match reference.tagFilters with
    | some filters =>
        AttributeHead.filtersOpening ++ ['|'].intercalate (filters.map TagReference.written) ++
          [')']
    | none => [])

end AttributeReference

end NoteQuery
