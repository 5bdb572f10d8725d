import Mathlib.Data.List.Nodup
import NoteQuery.Proofs.Json.Roundtrip

/-! # Values taken apart

What the parts of a record were encoded from is decoded from the record again, also when a part may
be absent or is a list.
-/

namespace NoteQuery.Json

namespace Value

variable {Content : Type} {encode : Content → Value} {decode : Value → Option Content}

/-- A part that may be absent is plain when it is plain wherever it is present. -/
theorem IsPlain.ofOption {content : Option Content}
    (plain : ∀ present ∈ content, (encode present).IsPlain) :
    (Value.ofOption encode content).IsPlain := by
  cases content with
  | none => exact .null
  | some content => exact plain content rfl

/-- A list is plain when the values of its members are. -/
theorem IsPlain.ofList {contents : List Content}
    (plain : ∀ content ∈ contents, (encode content).IsPlain) :
    (Value.ofList encode contents).IsPlain :=
  .array (List.forall_mem_map.mpr plain)

/-- A record is plain when the values of its fields are; their names are texts. -/
theorem IsPlain.record {fields : List (String × Value)}
    (plain : ∀ field ∈ fields, field.2.IsPlain) : (Value.record fields).IsPlain :=
  .object (List.forall_mem_map.mpr fun field _ => ⟨field.1.toList, rfl⟩)
    (List.forall_mem_map.mpr plain)

@[simp] theorem text?_ofText (text : Text) : (ofText text).text? = some text :=
  Literal.text?_ofText text

/-- A number is decoded from its digits when it fits into 64 bits. -/
theorem nat?_ofNat {number : Nat} (small : number < UInt64.size) :
    (ofNat number).nat? = some number := by
  have digits : (Text.ofNat number).all Char.isDigit = true :=
    List.all_eq_true.mpr fun _ => Placeholder.isDigit_of_mem_ofNat
  have value : Nat.ofDigitChars 10 (Text.ofNat number) 0 = number := Nat.ofDigitChars_ten_toDigits
  rw [ofNat, nat?, value, if_pos ⟨digits, small⟩]

/-- A list is decoded when each of its members is. -/
theorem list?_ofList {contents : List Content}
    (inverse : ∀ content ∈ contents, decode (encode content) = some content) :
    list? decode (ofList encode contents) = some contents :=
  mapM_map_eq_some inverse

@[simp] theorem bool?_bool (value : Bool) : (bool value).bool? = some value :=
  rfl

/-- A part that may be absent is decoded as a present one from every value but `null`. -/
theorem option?_of_ne_null {value : Value} (present : value ≠ null) :
    option? decode value = (decode value).map some := by
  cases value with
  | null => exact absurd rfl present
  | _ => rfl

/-- A part that may be absent is decoded when the present ones are, none of which is written as
`null`. -/
theorem option?_ofOption {content : Option Content}
    (visible : ∀ present ∈ content, encode present ≠ null)
    (inverse : ∀ present ∈ content, decode (encode present) = some present) :
    option? decode (ofOption encode content) = some content := by
  cases content with
  | none => rfl
  | some content =>
      rw [ofOption, option?_of_ne_null (visible content rfl), inverse content rfl, Option.map_some]

/-- The fields of a record, when their names are known and different. -/
theorem fields?_record {names : List String} {required : Nat} {fields : Fields}
    (known : ∀ field ∈ fields, field.1 ∈ names) (different : (fields.map Prod.fst).Nodup) :
    (record fields).fields? names required = some fields := by
  have all : fields.filter (fun field => names.contains field.1) = fields :=
    List.filter_eq_self.mpr fun field member => List.contains_iff_mem.mpr (known field member)
  rw [record, fields?, mapM_map_eq_some, Option.bind_eq_bind, Option.bind_some]
  · simp only [all]
    rw [if_pos different]
  · intro field _
    simp only [Literal.text?_ofText, Option.map_some, String.ofList_toList]

end Value

end NoteQuery.Json
