import NoteQuery.Json.Reader
import NoteQuery.Json.Writer
import NoteQuery.Proofs.Json.Literal
import NoteQuery.Proofs.Placeholder.Numerals

/-! # Values read back

A value whose strings are texts and whose numbers are natural ones is read back from its text in
both layouts (`Json.Value.parse?_render_append`). Its text is scanned to the same tokens in both
layouts (`Json.Value.scan?_written`), and these tokens are read to the value
(`Json.Value.read?_tokens`).
-/

namespace NoteQuery.Json

/-- No number goes on where the text starts. -/
def EndsNumber (text : Text) : Prop :=
  ∀ c ∈ text.head?, c.isDigit = false ∧ c ≠ '.' ∧ c ≠ 'e' ∧ c ≠ 'E'

/-- A written number starts with a digit. -/
theorem exists_ofNat_eq (number : Nat) :
    ∃ c digits, Text.ofNat number = c :: digits ∧ c.isDigit = true := by
  obtain ⟨c, digits, numeral⟩ := List.exists_cons_of_ne_nil
    (Nat.toDigits_ne_nil (n := number) (b := 10))
  exact ⟨c, digits, numeral, Nat.isDigit_of_mem_toDigits (n := number) (b := 10) (by decide)
    (by decide) (by rw [numeral]; exact List.mem_cons_self)⟩

/-- The numeral of a number other than zero starts with another digit. -/
theorem head_ofNat_ne {number : Nat} (positive : 0 < number) {c : Char} {digits : Text}
    (numeral : Text.ofNat number = c :: digits) : c ≠ '0' := by
  induction number using Nat.strongRecOn generalizing digits with
  | ind number ih =>
      rcases Nat.lt_or_ge number 10 with small | large
      · rw [Text.ofNat, Nat.toDigits_of_lt_base small] at numeral
        obtain ⟨rfl, -⟩ := List.cons.inj numeral
        intro zero
        have value := congrArg Char.toNat zero
        rw [Nat.toNat_digitChar_of_lt_ten small] at value
        exact positive.ne' (Nat.add_left_cancel value)
      · rw [Text.ofNat, Nat.toDigits_of_base_le (by decide) large] at numeral
        obtain ⟨first, more, front⟩ := List.exists_cons_of_ne_nil
          (Nat.toDigits_ne_nil (n := number / 10) (b := 10))
        rw [front, List.cons_append] at numeral
        obtain ⟨rfl, -⟩ := List.cons.inj numeral
        exact ih (number / 10) (Nat.div_lt_self positive (by decide))
          (Nat.div_pos large (by decide)) front

/-- The whole part of a written number is all of it, since it starts with a zero only when it is
zero. -/
theorem afterWhole?_ofNat (number : Nat) {rest : Text} (ends : EndsNumber rest) :
    afterWhole? (Text.ofNat number ++ rest) = some rest := by
  rcases Nat.eq_zero_or_pos number with rfl | positive
  · rfl
  · obtain ⟨c, digits, numeral, -⟩ := exists_ofNat_eq number
    have run : Text.run? Char.isDigit (Text.ofNat number ++ rest) =
        some (Text.ofNat number, rest) :=
      Text.run?_eq_some_iff.mpr ⟨rfl, Nat.toDigits_ne_nil,
        fun _ => Placeholder.isDigit_of_mem_ofNat, fun c head => (ends c head).1⟩
    have other := head_ofNat_ne positive numeral
    unfold afterWhole?
    split
    · rename_i first
      rw [numeral, List.cons_append] at first
      exact absurd (List.cons.inj first).1 other
    · rw [run, Option.map_some]

/-- A number is read up to its last digit. -/
theorem afterNumber?_ofNat (number : Nat) {rest : Text} (ends : EndsNumber rest) :
    afterNumber? (Text.ofNat number ++ rest) = some rest := by
  obtain ⟨c, digits, numeral, digit⟩ := exists_ofNat_eq number
  have noSign : Text.skipOptional '-' (Text.ofNat number ++ rest) =
      (false, Text.ofNat number ++ rest) := by
    rw [numeral, List.cons_append, Text.skipOptional, if_neg]
    rintro rfl
    exact absurd digit (by decide)
  have noFraction : afterFraction? rest = some rest := by
    unfold afterFraction?
    split
    · exact absurd rfl (ends '.' rfl).2.1
    · rfl
  have noExponent : afterExponent? rest = some rest := by
    cases rest with
    | nil => rfl
    | cons c rest =>
        rw [afterExponent?, if_neg]
        rintro (rfl | rfl)
        · exact (ends 'e' rfl).2.2.1 rfl
        · exact (ends 'E' rfl).2.2.2 rfl
  rw [afterNumber?, noSign, afterWhole?_ofNat number ends]
  change (afterFraction? rest >>= afterExponent?) = some rest
  rw [noFraction]
  exact noExponent

namespace Token

variable {text rest behind : Text} {token : Token}

/-- Blanks make no tokens. -/
theorem scan?_space {c : Char} (space : isSpace c = true) : scan? (c :: rest) = scan? rest := by
  rw [scan?, if_pos space]

/-- Scanning on behind a token. -/
theorem scan?_read {c : Char} (visible : isSpace c = false)
    (read : read? (c :: rest) = some (token, behind)) :
    scan? (c :: rest) = (scan? behind).map (token :: ·) := by
  rw [scan?, if_neg (by rw [visible]; exact Bool.noConfusion)]
  split
  · rename_i found
    rw [read] at found
    obtain ⟨rfl, rfl⟩ := Prod.mk.inj (Option.some.inj found)
    rfl
  · rename_i none
    rw [read] at none
    exact absurd none (by simp)

/-- A text of blanks has no tokens. -/
theorem scan?_blanks {blanks : Text} (blank : ∀ c ∈ blanks, isSpace c = true) :
    scan? blanks = some [] := by
  induction blanks with
  | nil => rw [scan?]
  | cons c blanks ih =>
      obtain ⟨first, others⟩ := List.forall_mem_cons.mp blank
      rw [scan?_space first, ih others]

/-- No number goes on in a text of blanks. -/
theorem endsNumber_of_blank {blanks : Text} (blank : ∀ c ∈ blanks, isSpace c = true) :
    EndsNumber blanks := by
  intro c first
  have space := blank c (List.mem_of_mem_head? first)
  simp only [isSpace, Bool.or_eq_true, beq_iff_eq] at space
  rcases space with ((rfl | rfl) | rfl) | rfl <;> decide

/-- A line break makes no token in either layout. -/
theorem scan?_lineBreak (layout : Layout) (depth : Nat) (rest : Text) :
    scan? (layout.lineBreak depth ++ rest) = scan? rest := by
  cases layout with
  | compact => rfl
  | indented =>
      rw [Layout.lineBreak, List.cons_append, scan?_space rfl]
      induction 2 * depth with
      | zero => rfl
      | succ blanks ih => rw [List.replicate_succ, List.cons_append, scan?_space rfl, ih]

/-- The colon behind a key is one token in both layouts. -/
theorem scan?_colon (layout : Layout) (rest : Text) :
    scan? (layout.colon ++ rest) = (scan? rest).map (colon :: ·) := by
  cases layout with
  | compact => exact scan?_read rfl rfl
  | indented =>
      rw [Layout.colon, List.cons_append, scan?_read rfl rfl, List.singleton_append,
        scan?_space rfl]

/-- A digit starts the token of a number. -/
theorem read?_digit {c : Char} (digit : c.isDigit = true) :
    read? (c :: rest) = (afterNumber? (c :: rest)).map fun behind =>
      (number (Text.upTo (c :: rest) behind), behind) := by
  unfold read?
  split
  case h_11 => rfl
  all_goals
    rename_i other
    obtain ⟨rfl, -⟩ := List.cons.inj other
    exact absurd digit (by decide)

/-- No digit is a blank. -/
theorem isSpace_of_isDigit {c : Char} (digit : c.isDigit = true) : isSpace c = false := by
  cases space : isSpace c with
  | false => rfl
  | true =>
      simp only [isSpace, Bool.or_eq_true, beq_iff_eq] at space
      rcases space with ((rfl | rfl) | rfl) | rfl <;> exact absurd digit (by decide)

/-- A written number is one token where no number goes on behind it. -/
theorem scan?_number (number : Nat) (ends : EndsNumber rest) :
    scan? (Text.ofNat number ++ rest) = (scan? rest).map (.number (Text.ofNat number) :: ·) := by
  have found := afterNumber?_ofNat number ends
  have front : (Text.ofNat number ++ rest).upTo rest = Text.ofNat number := by simp [Text.upTo]
  obtain ⟨c, digits, numeral, digit⟩ := exists_ofNat_eq number
  rw [numeral, List.cons_append] at found front ⊢
  exact scan?_read (isSpace_of_isDigit digit) (by rw [read?_digit digit, found, Option.map_some,
    front])

/-- A written string is one token, whatever stands behind it. -/
theorem scan?_string (string : Text) (rest : Text) :
    scan? ((Literal.ofText string).written ++ rest) =
      (scan? rest).map (.string (.ofText string) :: ·) := by
  have read : read? ((Literal.ofText string).written ++ rest) =
      some (.string (.ofText string), rest) := by
    rw [Literal.written, List.cons_append, read?]
    exact congrArg _ (Literal.read?_ofText string rest)
  exact scan?_read rfl read

end Token

namespace Value

/-- A value whose strings are texts and whose numbers are natural ones. -/
inductive IsPlain : Value → Prop
  | null : IsPlain null
  | bool (value : Bool) : IsPlain (bool value)
  | number (number : Nat) : IsPlain (.ofNat number)
  | string (text : Text) : IsPlain (.ofText text)
  | array {items : List Value} (plain : ∀ item ∈ items, IsPlain item) : IsPlain (array items)
  | object {members : List (Literal × Value)}
    (keys : ∀ member ∈ members, ∃ text, member.1 = .ofText text)
    (plain : ∀ member ∈ members, IsPlain member.2) : IsPlain (object members)

mutual

/-- The tokens of a value. -/
def tokens : Value → List Token
  | null => [.null]
  | bool value => [.bool value]
  | number lexeme => [.number lexeme]
  | string literal => [.string literal]
  | array [] => [.openBracket, .closeBracket]
  | array (item :: rest) => .openBracket :: (item.tokens ++ itemsTokens rest)
  | object [] => [.openBrace, .closeBrace]
  | object ((key, value) :: rest) =>
      .openBrace :: .string key :: .colon :: (value.tokens ++ membersTokens rest)

/-- The tokens of the items behind the first one, and of the bracket that closes the array. -/
def itemsTokens : List Value → List Token
  | [] => [.closeBracket]
  | item :: rest => .comma :: (item.tokens ++ itemsTokens rest)

/-- The tokens of the members behind the first one, and of the brace that closes the object. -/
def membersTokens : List (Literal × Value) → List Token
  | [] => [.closeBrace]
  | (key, value) :: rest =>
      .comma :: .string key :: .colon :: (value.tokens ++ membersTokens rest)

end

section Scanning

variable {layout : Layout} {depth outer : Nat} {rest : Text}

/-- The text of a value is scanned to the tokens of the value, in front of any text in which no
number goes on. -/
def Scans (layout : Layout) (depth : Nat) (value : Value) : Prop :=
  ∀ {rest}, EndsNumber rest →
    Token.scan? (value.written layout depth ++ rest) = (Token.scan? rest).map (value.tokens ++ ·)

/-- What ends a number does so behind a line break, too. -/
theorem endsNumber_lineBreak {closing : Char} (closes : EndsNumber [closing]) :
    EndsNumber (layout.lineBreak outer ++ closing :: rest) := by
  cases layout with
  | compact => exact closes
  | indented => rintro _ ⟨⟩; decide

/-- What is written behind an item of an array ends a number. -/
theorem endsNumber_writtenItems (items : List Value) :
    EndsNumber (writtenItems layout depth items ++ (layout.lineBreak outer ++ ']' :: rest)) := by
  cases items with
  | nil => exact endsNumber_lineBreak (by rintro _ ⟨⟩; decide)
  | cons item items => rintro _ ⟨⟩; decide

/-- What is written behind a member of an object ends a number. -/
theorem endsNumber_writtenMembers (members : List (Literal × Value)) :
    EndsNumber
      (writtenMembers layout depth members ++ (layout.lineBreak outer ++ '}' :: rest)) := by
  cases members with
  | nil => exact endsNumber_lineBreak (by rintro _ ⟨⟩; decide)
  | cons member members => rintro _ ⟨⟩; decide

/-- What is written behind the first item of an array is scanned to its tokens when the items
are. -/
theorem scan?_writtenItems {items : List Value} (scans : ∀ item ∈ items, Scans layout depth item) :
    Token.scan? (writtenItems layout depth items ++ (layout.lineBreak outer ++ ']' :: rest)) =
      (Token.scan? rest).map (itemsTokens items ++ ·) := by
  induction items with
  | nil =>
      rw [writtenItems, List.nil_append, Token.scan?_lineBreak]
      exact Token.scan?_read rfl rfl
  | cons item items ih =>
      obtain ⟨first, others⟩ := List.forall_mem_cons.mp scans
      rw [writtenItems, List.cons_append, Token.scan?_read rfl rfl, List.append_assoc,
        List.append_assoc, Token.scan?_lineBreak, first (endsNumber_writtenItems items), ih others,
        Option.map_map, Option.map_map]
      simp only [itemsTokens, List.cons_append, List.append_assoc]
      rfl

/-- What is written behind the first member of an object is scanned to its tokens when the values
are. -/
theorem scan?_writtenMembers {members : List (Literal × Value)}
    (keys : ∀ member ∈ members, ∃ text, member.1 = .ofText text)
    (scans : ∀ member ∈ members, Scans layout depth member.2) :
    Token.scan? (writtenMembers layout depth members ++ (layout.lineBreak outer ++ '}' :: rest)) =
      (Token.scan? rest).map (membersTokens members ++ ·) := by
  induction members with
  | nil =>
      rw [writtenMembers, List.nil_append, Token.scan?_lineBreak]
      exact Token.scan?_read rfl rfl
  | cons member members ih =>
      obtain ⟨⟨text, key⟩, otherKeys⟩ := List.forall_mem_cons.mp keys
      obtain ⟨first, others⟩ := List.forall_mem_cons.mp scans
      rw [writtenMembers, List.cons_append, Token.scan?_read rfl rfl, key]
      simp only [List.append_assoc]
      rw [Token.scan?_lineBreak, Token.scan?_string, Token.scan?_colon,
        first (endsNumber_writtenMembers _), ih otherKeys others]
      simp only [Option.map_map, membersTokens, List.cons_append, List.append_assoc, key]
      rfl

/-- A value is scanned to its tokens in both layouts. -/
theorem scan?_written {value : Value} (plain : value.IsPlain) (depth : Nat) :
    Scans layout depth value := by
  induction plain generalizing depth with
  | null => exact fun _ => Token.scan?_read rfl rfl
  | bool value => cases value <;> exact fun _ => Token.scan?_read rfl rfl
  | number number => exact Token.scan?_number number
  | string text => exact fun _ => Token.scan?_string text _
  | @array items plain ih =>
      intro rest ends
      cases items with
      | nil =>
          rw [written, List.cons_append, Token.scan?_read rfl rfl, List.cons_append,
            Token.scan?_read rfl rfl, Option.map_map]
          rfl
      | cons item items =>
          obtain ⟨first, others⟩ := List.forall_mem_cons.mp ih
          rw [written, List.cons_append, Token.scan?_read rfl rfl]
          simp only [List.append_assoc, List.singleton_append]
          rw [Token.scan?_lineBreak, first _ (endsNumber_writtenItems items),
            scan?_writtenItems fun item member => others item member _]
          simp only [Option.map_map, tokens, List.cons_append, List.append_assoc]
          rfl
  | @object members keys plain ih =>
      intro rest ends
      cases members with
      | nil =>
          rw [written, List.cons_append, Token.scan?_read rfl rfl, List.cons_append,
            Token.scan?_read rfl rfl, Option.map_map]
          rfl
      | cons member members =>
          obtain ⟨⟨text, key⟩, otherKeys⟩ := List.forall_mem_cons.mp keys
          obtain ⟨first, others⟩ := List.forall_mem_cons.mp ih
          rw [written, List.cons_append, Token.scan?_read rfl rfl, key]
          simp only [List.append_assoc, List.singleton_append]
          rw [Token.scan?_lineBreak, Token.scan?_string, Token.scan?_colon,
            first _ (endsNumber_writtenMembers _),
            scan?_writtenMembers otherKeys fun member found => others member found _]
          simp only [Option.map_map, tokens, List.cons_append, List.append_assoc, key]
          rfl

end Scanning

section Reading

/-- A value is read from its tokens. -/
def IsRead (value : Value) : Prop :=
  ∀ {fuel rest}, value.tokens.length ≤ fuel → read? fuel (value.tokens ++ rest) = some (value, rest)

variable {fuel : Nat} {rest : List Token}

/-- The items of an array are read from their tokens when each of them is. -/
theorem readItems?_tokens {item : Value} {items : List Value} (first : item.IsRead)
    (others : ∀ item ∈ items, IsRead item)
    (enough : item.tokens.length + (itemsTokens items).length ≤ fuel) :
    readItems? fuel (item.tokens ++ (itemsTokens items ++ rest)) = some (item :: items, rest) := by
  induction items generalizing item fuel with
  | nil =>
      cases fuel with
      | zero => exact absurd enough (Nat.not_succ_le_zero _)
      | succ fuel =>
          rw [readItems?, first (Nat.le_of_succ_le_succ enough)]
          rfl
  | cons next items ih =>
      cases fuel with
      | zero => exact absurd enough (Nat.not_succ_le_zero _)
      | succ fuel =>
          obtain ⟨second, later⟩ := List.forall_mem_cons.mp others
          rw [itemsTokens, List.length_cons, List.length_append] at enough
          have more : readItems? fuel (next.tokens ++ (itemsTokens items ++ rest)) =
              some (next :: items, rest) := ih second later (by omega)
          rw [readItems?, first (by omega)]
          simp only [itemsTokens, List.cons_append, List.append_assoc, more]
          rfl

/-- The members of an object are read from their tokens when each of their values is. -/
theorem readMembers?_tokens {key : Literal} {value : Value} {members : List (Literal × Value)}
    (first : value.IsRead) (others : ∀ member ∈ members, IsRead member.2)
    (enough : value.tokens.length + (membersTokens members).length ≤ fuel) :
    readMembers? fuel
        (.string key :: .colon :: (value.tokens ++ (membersTokens members ++ rest))) =
      some ((key, value) :: members, rest) := by
  induction members generalizing key value fuel with
  | nil =>
      cases fuel with
      | zero => exact absurd enough (Nat.not_succ_le_zero _)
      | succ fuel =>
          rw [readMembers?, first (Nat.le_of_succ_le_succ enough)]
          rfl
  | cons next members ih =>
      cases fuel with
      | zero => exact absurd enough (Nat.not_succ_le_zero _)
      | succ fuel =>
          obtain ⟨second, later⟩ := List.forall_mem_cons.mp others
          simp only [membersTokens, List.length_cons, List.length_append] at enough
          have more : readMembers? fuel
              (.string next.1 :: .colon :: (next.2.tokens ++ (membersTokens members ++ rest))) =
                some (next :: members, rest) := ih second later (by omega)
          rw [readMembers?, first (by omega)]
          simp only [membersTokens, List.cons_append, List.append_assoc, more]
          rfl

/-- No value starts with the bracket that closes an array. -/
theorem tokens_append_ne (value : Value) (rest behind : List Token) :
    value.tokens ++ rest ≠ .closeBracket :: behind := by
  intro same
  cases value with
  | array items => cases items <;> exact Token.noConfusion (List.cons.inj same).1
  | object members =>
      rcases members with _ | ⟨⟨_, _⟩, _⟩ <;> exact Token.noConfusion (List.cons.inj same).1
  | _ => exact Token.noConfusion (List.cons.inj same).1

/-- A value is read from its tokens, with at least as much fuel as there are tokens. -/
theorem read?_tokens {value : Value} (plain : value.IsPlain) : IsRead value := by
  induction plain with
  | @array items plain ih =>
      intro fuel rest enough
      cases fuel with
      | zero => cases items <;> exact absurd enough (Nat.not_succ_le_zero _)
      | succ fuel =>
          cases items with
          | nil => rfl
          | cons item items =>
              obtain ⟨first, others⟩ := List.forall_mem_cons.mp ih
              rw [tokens, List.length_cons, List.length_append] at enough
              have more : readItems? fuel (item.tokens ++ (itemsTokens items ++ rest)) =
                  some (item :: items, rest) := readItems?_tokens first others (by omega)
              simp only [tokens, List.cons_append, List.append_assoc]
              rw [read?, more]
              · rfl
              · exact fun behind => tokens_append_ne item _ behind
  | @object members keys plain ih =>
      intro fuel rest enough
      cases fuel with
      | zero => rcases members with _ | ⟨⟨_, _⟩, _⟩ <;> exact absurd enough (Nat.not_succ_le_zero _)
      | succ fuel =>
          cases members with
          | nil => rfl
          | cons member members =>
              obtain ⟨first, others⟩ := List.forall_mem_cons.mp ih
              simp only [tokens, List.length_cons, List.length_append] at enough
              have more : readMembers? fuel (.string member.1 :: .colon ::
                  (member.2.tokens ++ (membersTokens members ++ rest))) =
                    some (member :: members, rest) := readMembers?_tokens first others (by omega)
              simp only [tokens, List.cons_append, List.append_assoc]
              rw [read?, more]
              · rfl
              · exact fun _ other => Token.noConfusion (List.cons.inj other).1
  | _ =>
      intro fuel rest enough
      cases fuel with
      | zero => exact absurd enough (Nat.not_succ_le_zero _)
      | succ fuel => rfl

end Reading

/-- A value is read back from its text, in both layouts, also when blanks stand behind it. -/
theorem parse?_render_append {value : Value} (plain : value.IsPlain) (layout : Layout)
    {blanks : Text} (blank : ∀ c ∈ blanks, isSpace c = true) :
    parse? (value.render layout ++ blanks) = some value := by
  have scanned : Token.scan? (value.written layout 0 ++ blanks) = some value.tokens := by
    rw [scan?_written plain 0 (Token.endsNumber_of_blank blank), Token.scan?_blanks blank,
      Option.map_some, List.append_nil]
  have read : read? (2 * value.tokens.length + 1) (value.tokens ++ []) = some (value, []) :=
    read?_tokens plain (by omega)
  rw [List.append_nil] at read
  rw [parse?, render, scanned, Option.bind_eq_bind, Option.bind_some, ofTokens?, read]

end Value

end NoteQuery.Json
