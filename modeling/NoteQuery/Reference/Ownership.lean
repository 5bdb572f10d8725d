import NoteQuery.Reference.Name

/-! # The tag filters that attributes own

An attribute reference such as `@Price.On(Shop)` owns the body of its `.On(...)` suffix: tags in it
are not references of the clause but filters of the attribute. A place in a clause is given by the
number of characters left there.
-/

namespace NoteQuery

/-- The part of an attribute reference in front of its tag filters: the name, and whether the
attribute must exist. -/
structure AttributeHead extends QualifiedName where
  mustExist : Bool
  deriving DecidableEq, Repr

namespace AttributeHead

/-- The suffix of an attribute that must exist. -/
def existsSuffix : Text := ".Exists()".toList

/-- The start of the suffix with tag filters. -/
def filtersOpening : Text := ".On(".toList

/-- Reads the head of an attribute reference. In `@Price.Exists()` the word behind the dot is no
name, because a parenthesis follows it. -/
def read? (spelling : Spelling) : Text → Option (AttributeHead × Text)
  | '@' :: text =>
      match QualifiedName.read? spelling (fun behind => behind.head? != some '(') text with
      | none => none
      | some (name, behind) =>
          match existsSuffix.isPrefixOf? behind with
          | some rest => some (⟨name, true⟩, rest)
          | none => some (⟨name, false⟩, behind)
  | _ => none

/-- Reading a head takes something. -/
theorem read?_isRestOf {spelling : Spelling} {text behind : Text} {head : AttributeHead}
    (read : read? spelling text = some (head, behind)) : behind.IsRestOf text := by
  unfold read? at read
  split at read
  · split at read
    · simp at read
    · rename_i name rest named
      have inner := (QualifiedName.read?_isRestOf named).1
      split at read
      · rename_i suffixed
        simp only [Option.some.injEq, Prod.mk.injEq] at read
        obtain ⟨_, rfl⟩ := read
        exact Text.IsRestOf.cons _ ((Text.suffix_of_isPrefixOf? suffixed).trans inner)
      · simp only [Option.some.injEq, Prod.mk.injEq] at read
        obtain ⟨_, rfl⟩ := read
        exact Text.IsRestOf.cons _ inner
  · simp at read

end AttributeHead

/-- The places between which an attribute owns the text: where `opening` characters are left, its
suffix starts, and where `closing` characters are left, it has ended. -/
structure OwnedBody where
  opening : Nat
  closing : Nat
  deriving DecidableEq, Repr

namespace OwnedBody

/-- Whether the place where `left` characters are left is inside the body. -/
def covers (body : OwnedBody) (left : Nat) : Bool :=
  body.closing < left && left ≤ body.opening

/-- The body owned by the attribute reference at the start of a text. It ends behind the next
closing parenthesis or, without one, with the text. -/
def read? (spelling : Spelling) (text : Text) : Option OwnedBody :=
  match AttributeHead.read? spelling text with
  | none => none
  | some (_, behind) =>
      match AttributeHead.filtersOpening.isPrefixOf? behind with
      | none => none
      | some inside =>
          match Text.cut? ')' inside with
          | some (_, rest) => some ⟨behind.length, rest.length⟩
          | none => some ⟨behind.length, 0⟩

/-- The bodies owned by the attribute references in one spelling, from the left. -/
def inSpelling (spelling : Spelling) : Text → List OwnedBody
  | [] => []
  | c :: rest =>
      match read? spelling (c :: rest) with
      | some body => body :: inSpelling spelling rest
      | none => inSpelling spelling rest

/-- The bodies owned by the attribute references of a clause, also by those inside another body. -/
def ofClause (clause : Text) : List OwnedBody :=
  inSpelling .plain clause ++ inSpelling .bracketed clause

/-- The first of some bodies that covers a place. -/
def owning? (bodies : List OwnedBody) (left : Nat) : Option OwnedBody :=
  bodies.find? (·.covers left)

/-- A body that owns a place ends behind it. -/
theorem closing_lt_of_owning? {bodies : List OwnedBody} {left : Nat} {body : OwnedBody}
    (owned : owning? bodies left = some body) : body.closing < left := by
  have covered := List.find?_some owned
  simp only [covers, Bool.and_eq_true, decide_eq_true_eq] at covered
  exact covered.1

end OwnedBody

end NoteQuery
