import Mathlib.Tactic.SplitIfs
import NoteQuery.Json.Literal

/-! # String literals read back

A quoted text is read back as the text, whatever characters it holds (`Json.Literal.read?_ofText`):
each character, escaped or not, is read as itself, and a text has no halves of surrogate pairs to
join.
-/

namespace NoteQuery.Json

/-- Decoding what was encoded, item by item. -/
theorem mapM_map_eq_some {Content Shape : Type} {encode : Content → Shape}
    {decode : Shape → Option Content} {contents : List Content}
    (inverse : ∀ content ∈ contents, decode (encode content) = some content) :
    (contents.map encode).mapM decode = some contents := by
  induction contents with
  | nil => rfl
  | cons content contents ih =>
      obtain ⟨first, others⟩ := List.forall_mem_cons.mp inverse
      rw [List.map_cons, List.mapM_cons, first, ih others]
      rfl

/-- A hexadecimal digit is read back. -/
theorem hexValue?_hexDigit : ∀ value < 16, hexValue? (hexDigit value) = some value := by
  decide

namespace Element

/-- A control character is written by its number in four hexadecimal digits. -/
theorem readEscape?_unicodeEscape {c : Char} (control : c.toNat < 0x20) (rest : Text) :
    readEscape? ((written.unicodeEscape c.toNat).tail ++ rest) = some (char c, rest) := by
  have digit : ∀ value, hexValue? (hexDigit (value % 16)) = some (value % 16) := fun value =>
    hexValue?_hexDigit _ (Nat.mod_lt value (by decide))
  have unit : ((c.toNat / 4096 % 16 * 16 + c.toNat / 256 % 16) * 16 + c.toNat / 16 % 16) * 16 +
      c.toNat % 16 = c.toNat := by omega
  have whole : ofUnit c.toNat = char c := by
    rw [ofUnit, if_neg (by omega), Char.ofNat_toNat]
  simp only [written.unicodeEscape, List.tail_cons, List.cons_append, List.nil_append, readEscape?,
    digit, Option.bind_eq_bind, Option.bind_some, unit, whole, Option.pure_def]

end Element

namespace Literal

/-- Reading on behind an escape. -/
theorem readElements?_escape {rest behind : Text} {element : Element}
    (escape : Element.readEscape? rest = some (element, behind)) :
    readElements? ('\\' :: rest) =
      (readElements? behind).map fun (elements, behind) => (element :: elements, behind) := by
  rw [readElements?, if_neg (by decide), if_pos rfl]
  split
  · rename_i none
    rw [escape] at none
    exact absurd none (by simp)
  · rename_i found
    rw [escape] at found
    obtain ⟨rfl, rfl⟩ := Prod.mk.inj (Option.some.inj found)
    rfl

/-- A character is read back as it was written. -/
theorem readElements?_written (c : Char) (rest : Text) :
    readElements? ((Element.char c).written ++ rest) =
      (readElements? rest).map fun (elements, behind) => (.char c :: elements, behind) := by
  simp only [Element.written]
  split_ifs with quote backslash backspace formFeed lineFeed carriageReturn tabulator control
  · subst quote; exact readElements?_escape rfl
  · subst backslash; exact readElements?_escape rfl
  · subst backspace; exact readElements?_escape rfl
  · subst formFeed; exact readElements?_escape rfl
  · subst lineFeed; exact readElements?_escape rfl
  · subst carriageReturn; exact readElements?_escape rfl
  · subst tabulator; exact readElements?_escape rfl
  · exact readElements?_escape (Element.readEscape?_unicodeEscape control rest)
  · rw [List.singleton_append, readElements?, if_neg quote, if_neg backslash, if_neg control]

/-- The elements of a text are read up to the quote behind them. -/
theorem readElements?_ofText (text rest : Text) :
    readElements? ((ofText text).flatMap Element.written ++ '"' :: rest) =
      some (ofText text, rest) := by
  induction text with
  | nil =>
      rw [ofText, List.map_nil, List.flatMap_nil, List.nil_append, readElements?, if_pos rfl]
  | cons c text ih =>
      rw [ofText, List.map_cons, List.flatMap_cons, List.append_assoc, readElements?_written]
      exact congrArg _ ih

/-- A text has no half characters that could be joined. -/
theorem joinHalves_ofText (text : Text) : joinHalves (ofText text) = ofText text := by
  induction text with
  | nil => rfl
  | cons c text ih => exact congrArg _ ih

/-- A quoted text is read back. -/
theorem read?_ofText (text rest : Text) :
    read? ((ofText text).written.tail ++ rest) = some (ofText text, rest) := by
  rw [written, List.tail_cons, List.append_assoc, read?, List.singleton_append,
    readElements?_ofText, Option.map_some]
  exact congrArg (fun literal => some (literal, rest)) (joinHalves_ofText text)

theorem text?_ofText (text : Text) : (ofText text).text? = some text :=
  mapM_map_eq_some fun _ _ => rfl

end Literal

end NoteQuery.Json
