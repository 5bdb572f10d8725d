/-! # Texts

A text is a list of characters. A reader takes a text and answers what it recognised at the start
together with the text that is left. The lemmas say that a reader loses nothing
(`Text.suffix_of_isPrefixOf?`, `Text.run?_eq_some_append`, `Text.cut?_eq_some_append`), and a walk
that goes on with a rest of the text (`Text.IsRestOf`) comes to an end.
-/

namespace NoteQuery

/-- A text is the list of its characters, since every rule of the language walks along them. -/
abbrev Text := List Char

namespace Text

/-- The number of bytes of a text in UTF-8. -/
def utf8Size (text : Text) : Nat :=
  text.foldr (fun c size => c.utf8Size + size) 0

/-- The number of bytes of `text` in front of the place where `rest` is left. -/
def bytesBefore (text rest : Text) : Nat :=
  text.utf8Size - rest.utf8Size

/-- The characters of `text` in front of the place where `rest` is left. -/
def upTo (text rest : Text) : Text :=
  text.take (text.length - rest.length)

/-- A number in decimal digits. -/
def ofNat (number : Nat) : Text :=
  Nat.toDigits 10 number

/-- Whether the text starts with `character`, and the text without it. -/
def skipOptional (character : Char) : Text → Bool × Text
  | [] => (false, [])
  | c :: rest => if c = character then (true, rest) else (false, c :: rest)

/-- The longest run of characters in a class at the start of a text, unless it is empty, and the
text behind it. -/
def run? (member : Char → Bool) (text : Text) : Option (Text × Text) :=
  if (text.takeWhile member).isEmpty then none
  else some (text.takeWhile member, text.dropWhile member)

/-- The texts in front of and behind the first `mark`. -/
def cut? (mark : Char) : Text → Option (Text × Text)
  | [] => none
  | c :: rest =>
      if c = mark then some ([], rest)
      else (cut? mark rest).map fun (front, behind) => (c :: front, behind)

/-- `behind` is what is left of `text` once something was taken from its start. -/
def IsRestOf (behind text : Text) : Prop :=
  behind <:+ text ∧ behind.length < text.length

/-- What is left of a rest is left of the whole. -/
theorem IsRestOf.of_suffix {behind middle text : Text} (last : behind <:+ middle)
    (first : IsRestOf middle text) : IsRestOf behind text :=
  ⟨last.trans first.1, Nat.lt_of_le_of_lt last.length_le first.2⟩

/-- What is left once something was taken from the end of a text is left of the text. -/
theorem IsRestOf.cons {behind text : Text} (c : Char) (rest : behind <:+ text) :
    IsRestOf behind (c :: text) :=
  ⟨rest.trans (List.suffix_cons c text), Nat.lt_succ_of_le rest.length_le⟩

/-- Reading a literal leaves the end of the text. -/
theorem suffix_of_isPrefixOf? {literal text rest : Text}
    (read : literal.isPrefixOf? text = some rest) : rest <:+ text := by
  induction literal generalizing text with
  | nil =>
      cases read
      exact List.suffix_refl rest
  | cons wanted more ih =>
      cases text with
      | nil => cases read
      | cons c tail =>
          change (if wanted == c then more.isPrefixOf? tail else none) = some rest at read
          rw [Option.ite_none_right_eq_some] at read
          exact (ih read.2).trans (List.suffix_cons c tail)

/-- Skipping a character leaves the end of the text. -/
theorem skipOptional_suffix (character : Char) (text : Text) :
    (skipOptional character text).2 <:+ text := by
  cases text with
  | nil => exact List.suffix_refl _
  | cons c rest =>
      simp only [skipOptional]
      split
      · exact List.suffix_cons c rest
      · exact List.suffix_refl _

/-- A run and the text behind it make up the text. -/
theorem run?_eq_some_append {member : Char → Bool} {text run rest : Text}
    (read : run? member text = some (run, rest)) : text = run ++ rest := by
  simp only [run?, Option.ite_none_left_eq_some, Option.some.injEq, Prod.mk.injEq] at read
  obtain ⟨_, rfl, rfl⟩ := read
  exact List.takeWhile_append_dropWhile.symm

/-- A run that was read is not empty. -/
theorem run?_ne_nil {member : Char → Bool} {text run rest : Text}
    (read : run? member text = some (run, rest)) : run ≠ [] := by
  simp only [run?, Option.ite_none_left_eq_some, Option.some.injEq, Prod.mk.injEq] at read
  obtain ⟨filled, rfl, rfl⟩ := read
  simpa using filled

/-- Reading a run leaves less than there was. -/
theorem isRestOf_of_run? {member : Char → Bool} {text run rest : Text}
    (read : run? member text = some (run, rest)) : IsRestOf rest text := by
  have filled := List.length_pos_iff.mpr (run?_ne_nil read)
  rw [run?_eq_some_append read]
  refine ⟨List.suffix_append run rest, ?_⟩
  rw [List.length_append]
  omega

/-- A cut removes the mark and nothing else. -/
theorem cut?_eq_some_append {mark : Char} {text front behind : Text}
    (cut : cut? mark text = some (front, behind)) : text = front ++ mark :: behind := by
  induction text generalizing front with
  | nil => simp [cut?] at cut
  | cons c rest ih =>
      by_cases same : c = mark
      · simp only [cut?, same, if_true, Option.some.injEq, Prod.mk.injEq] at cut
        obtain ⟨rfl, rfl⟩ := cut
        simp [same]
      · simp only [cut?, same, if_false, Option.map_eq_some_iff, Prod.mk.injEq, Prod.exists] at cut
        obtain ⟨shorter, _, cut, rfl, rfl⟩ := cut
        simp [ih cut]

/-- A cut leaves the end of the text. -/
theorem suffix_of_cut? {mark : Char} {text front behind : Text}
    (cut : cut? mark text = some (front, behind)) : behind <:+ text :=
  ⟨front ++ [mark], by simp [cut?_eq_some_append cut]⟩

/-- What stands in front of the rest of a text, followed by that rest, is the text. -/
theorem upTo_append {text rest : Text} (suffix : rest <:+ text) :
    upTo text rest ++ rest = text := by
  obtain ⟨front, rfl⟩ := suffix
  simp [upTo]

/-- Replaces every occurrence of `pattern`, from the left and without overlaps; an empty pattern
occurs nowhere. -/
def replace (pattern replacement : Text) : Text → Text
  | [] => []
  | c :: rest =>
      match pattern.isPrefixOf? (c :: rest) with
      | some behind =>
          if _ : behind.length ≤ rest.length then replacement ++ replace pattern replacement behind
          else c :: replace pattern replacement rest
      | none => c :: replace pattern replacement rest
termination_by text => text.length
decreasing_by
  · rename_i shorter
    exact Nat.lt_succ_of_le shorter
  all_goals exact Nat.lt_succ_self _

/-- The lines of a text: a line ends at a line feed or where the text ends, and behind the last line
feed there is a line only if text is left there. A carriage return in front of a line feed stays at
the end of its line, where it is a blank like any other. -/
def lines : Text → List Text
  | [] => []
  | c :: rest =>
      if c = '\n' then [] :: lines rest
      else
        match lines rest with
        | [] => [[c]]
        | line :: more => (c :: line) :: more

end Text

end NoteQuery
