import NoteQuery.Proofs.Reference.Braces

/-! # Counting braces

The count of the open braces along a text (`DataFilter.countBraces`) goes up for every brace that
opens and down for every brace that closes. It would have to go below zero exactly when the first
brace of the text closes (`DataFilter.countBraces_eq_underflow_iff`). In a text that starts with an
opening brace it ends at the brace that balances this one, or with the text when none does
(`DataFilter.countBraces_balances`).
-/

namespace NoteQuery

open Delimiters (braces)

namespace DataFilter

/-- What the count says of the texts in front of and behind the closing brace. -/
def BraceCount.ofCut (offset : Nat) : Option (Text × Text) → BraceCount
  | some (body, _) => .closed (offset + body.utf8Size)
  | none => .unclosed

variable {depth inner offset : Nat} {c : Char} {rest text : Text}

/-- A character in front of the cut stands behind `offset` bytes, too. -/
theorem BraceCount.ofCut_cons (offset : Nat) (c : Char) (cut : Option (Text × Text)) :
    ofCut (offset + c.utf8Size) cut =
      ofCut offset (cut.map fun (body, behind) => (c :: body, behind)) := by
  cases cut with
  | none => rfl
  | some cut => simp only [ofCut, Option.map_some, Text.utf8Size, List.foldr_cons, Nat.add_assoc]

/-- The count ends at a brace exactly when there is a cut, behind whose body it stands. -/
theorem BraceCount.ofCut_eq_closed_iff {start : Nat} {cut : Option (Text × Text)} :
    ofCut start cut = .closed offset ↔
      ∃ body behind, cut = some (body, behind) ∧ start + body.utf8Size = offset := by
  cases cut with
  | none => simp [ofCut]
  | some cut => simp [ofCut, Prod.ext_iff]

theorem BraceCount.ofCut_eq_unclosed_iff {start : Nat} {cut : Option (Text × Text)} :
    ofCut start cut = .unclosed ↔ cut = none := by
  cases cut with
  | none => simp [ofCut]
  | some cut => simp [ofCut]

/-- **While a brace is open, the count finds the brace that closes it.** The count is one more than
the number of braces opened since, so it never goes below zero. -/
theorem countBraces_succ (inner offset : Nat) (text : Text) :
    countBraces (inner + 1) offset text = .ofCut offset (close? inner text) := by
  induction text generalizing inner offset with
  | nil => rfl
  | cons c rest ih =>
      rw [countBraces, close?_cons]
      by_cases opening : c = '{'
      · rw [if_pos opening, if_pos opening, ih, BraceCount.ofCut_cons]
      · rw [if_neg opening, if_neg opening]
        by_cases closing : c = '}'
        · rw [if_pos closing, if_pos closing]
          cases inner with
          | zero => rfl
          | succ inner =>
              dsimp only
              rw [if_neg (Nat.succ_ne_zero inner), ih, BraceCount.ofCut_cons]
        · rw [if_neg closing, if_neg closing, ih, BraceCount.ofCut_cons]

/-- While a brace is open, the count does not go below zero. -/
theorem countBraces_succ_ne_underflow (inner offset : Nat) (text : Text) :
    countBraces (inner + 1) offset text ≠ .underflow := by
  rw [countBraces_succ]
  cases close? inner text with
  | none => exact BraceCount.noConfusion
  | some cut => exact BraceCount.noConfusion

/-- The count goes below zero exactly where the first brace of a text closes. -/
theorem countBraces_eq_underflow_iff :
    countBraces 0 offset text = .underflow ↔
      text.find? (fun c => c == '{' || c == '}') = some '}' := by
  induction text generalizing offset with
  | nil => simp [countBraces]
  | cons c rest ih =>
      rw [countBraces]
      by_cases opening : c = '{'
      · rw [if_pos opening]
        apply iff_of_false (countBraces_succ_ne_underflow 0 _ rest)
        simp [opening]
      · rw [if_neg opening]
        by_cases closing : c = '}'
        · rw [if_pos closing]
          simp [closing]
        · rw [if_neg closing, ih]
          simp [opening, closing]

/-- **Counting the braces of a text that starts with an opening one** never goes below zero. It
finds what the search for the closing brace finds: the first brace behind which as many are closed
as opened, and none exactly when every prefix opens more than it closes. -/
theorem countBraces_balances (rest : Text) :
    countBraces 0 0 ('{' :: rest) ≠ .underflow ∧
      countBraces 0 0 ('{' :: rest) = .ofCut '{'.utf8Size (close? 0 rest) ∧
      (∀ offset, countBraces 0 0 ('{' :: rest) = .closed offset ↔
        ∃ (front behind : Text), '{' :: rest = front ++ '}' :: behind ∧ front.utf8Size = offset ∧
          (front ++ ['}']).count '{' = (front ++ ['}']).count '}' ∧ braces.LeavesOpen front) ∧
      (countBraces 0 0 ('{' :: rest) = .unclosed ↔ braces.LeavesOpen ('{' :: rest)) := by
  have same : countBraces 0 0 ('{' :: rest) = .ofCut '{'.utf8Size (close? 0 rest) := by
    rw [countBraces, if_pos rfl, countBraces_succ, Nat.zero_add]
  refine ⟨?_, same, ?_, ?_⟩
  · intro below
    cases countBraces_eq_underflow_iff.mp below
  · intro offset
    rw [same, BraceCount.ofCut_eq_closed_iff]
    constructor
    · intro ⟨body, behind, found, size⟩
      obtain ⟨rfl, balanced⟩ := close?_eq_some_iff.mp found
      exact ⟨'{' :: body, behind, rfl, size, Delimiters.balanced_iff_enclosed.mp balanced⟩
    · intro ⟨front, behind, whole, size, balances⟩
      cases front with
      | nil => cases whole
      | cons c body =>
          obtain ⟨rfl, within⟩ := List.cons.inj whole
          have balanced : braces.Balanced body := Delimiters.balanced_iff_enclosed.mpr balances
          exact ⟨body, behind, close?_eq_some_iff.mpr ⟨within, balanced⟩, size⟩
  · rw [same, BraceCount.ofCut_eq_unclosed_iff, close?_eq_none_iff]
    exact Delimiters.leavesOpen_opening_cons_iff.symm

/-- The offset counts bytes, two of which are those of the letter. -/
example : countBraces 0 0 ['{', 'é', '{', '}', '}', '}'] = .closed 5 := rfl

end DataFilter

end NoteQuery
