import NoteQuery.Json.Literal

/-! # JSON values

A value keeps what its text shows: the digits of a number, and the members of an object in order,
also those with the same key. The functions that take a value apart answer nothing when it does not
have the form that they ask for.
-/

namespace NoteQuery.Json

/-- A JSON value. -/
inductive Value where
  | null
  | bool (value : Bool)
  | number (lexeme : Text)
  | string (literal : Literal)
  | array (items : List Value)
  | object (members : List (Literal × Value))

namespace Value

/-- The string with a given text. -/
def ofText (text : Text) : Value :=
  string (.ofText text)

/-- A natural number. -/
def ofNat (number : Nat) : Value :=
  .number (Text.ofNat number)

/-- A value that may be absent, which `null` stands for. -/
def ofOption {Content : Type} (encode : Content → Value) : Option Content → Value
  | some content => encode content
  | none => null

/-- An array. -/
def ofList {Content : Type} (encode : Content → Value) (contents : List Content) : Value :=
  array (contents.map encode)

/-- A record: an object whose keys are names of fields. -/
def record (fields : List (String × Value)) : Value :=
  object (fields.map fun (name, value) => (.ofText name.toList, value))

/-- The text of a string. -/
def text? : Value → Option Text
  | string literal => literal.text?
  | _ => none

/-- The truth value. -/
def bool? : Value → Option Bool
  | bool value => some value
  | _ => none

/-- The natural number of at most 64 bits, written without a sign, a fraction or an exponent. -/
def nat? : Value → Option Nat
  | number lexeme =>
      if lexeme.all Char.isDigit ∧ Nat.ofDigitChars 10 lexeme 0 < UInt64.size then
        some (Nat.ofDigitChars 10 lexeme 0)
      else none
  | _ => none

/-- The items of an array, each decoded. -/
def list? {Content : Type} (decode : Value → Option Content) : Value → Option (List Content)
  | array items => items.mapM decode
  | _ => none

/-- The content of a value that may be `null`. -/
def option? {Content : Type} (decode : Value → Option Content) : Value → Option (Option Content)
  | null => some none
  | value => (decode value).map some

end Value

/-- The fields of a record that are there, with their names. -/
abbrev Fields := List (String × Value)

namespace Value

/-- The fields of a record with given names. In an object a name occurs at most once, and members
with other keys are ignored, but every key must be a text. In an array the values stand in the order
of the names, and at least the first `required` of them must be there. -/
def fields? (names : List String) (required : Nat) : Value → Option Fields
  | array items =>
      if required ≤ items.length ∧ items.length ≤ names.length then some (names.zip items) else none
  | object members => do
      let named ← members.mapM fun (key, value) =>
        key.text?.map fun name => (String.ofList name, value)
      let known := named.filter fun (name, _) => names.contains name
      if (known.map Prod.fst).Nodup then some known else none
  | _ => none

end Value

namespace Fields

variable {Content : Type}

/-- A field that must be there. -/
def required? (fields : Fields) (name : String) (decode : Value → Option Content) :
    Option Content :=
  fields.lookup name >>= decode

/-- A field with a value of its own where it is missing. -/
def default? (fields : Fields) (name : String) (missing : Content)
    (decode : Value → Option Content) : Option Content :=
  match fields.lookup name with
  | some value => decode value
  | none => some missing

/-- A field that may be missing or `null`. -/
def option? (fields : Fields) (name : String) (decode : Value → Option Content) :
    Option (Option Content) :=
  fields.default? name none (Value.option? decode)

end Fields

end NoteQuery.Json
