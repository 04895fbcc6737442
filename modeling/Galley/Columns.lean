import Galley.Marker

/-!
# Column width

A character whose UTF-8 form is one byte takes one column and any other character takes
two.  The width of a text is the sum over its characters; markers may be left out of the
count.
-/

namespace Galley
namespace Columns

/-- Columns of a character. -/
def ofChar (character : Char) : Nat :=
  if character.toNat < 0x80 then 1 else 2

/-- Columns of a code point; one that is no character takes one. -/
def ofCodePoint (code : Nat) : Nat :=
  if code.isValidChar then ofChar (Char.ofNat code) else 1

/-- Columns of a text. -/
def ofText : List Char → Nat
  | [] => 0
  | character :: rest => ofChar character + ofText rest

/-- Columns of a text whose markers take none. -/
def ofMarked (text : List Char) : Nat :=
  ofText (Marker.erase text)

@[simp] theorem ofText_nil : ofText [] = 0 := rfl

@[simp] theorem ofText_cons (character : Char) (rest : List Char) :
    ofText (character :: rest) = ofChar character + ofText rest := rfl

@[simp] theorem ofText_append (first second : List Char) :
    ofText (first ++ second) = ofText first + ofText second := by
  induction first with
  | nil => simp
  | cons character rest inductionHypothesis =>
      simp [inductionHypothesis, Nat.add_assoc]

/-- The code point of a character takes the columns of the character. -/
theorem ofCodePoint_toNat (character : Char) :
    ofCodePoint character.toNat = ofChar character := by
  have valid : character.toNat.isValidChar := character.valid
  rw [ofCodePoint, if_pos valid, Char.ofNat_toNat]

/-- A character takes one column or two. -/
theorem ofChar_eq_one_or_two (character : Char) :
    ofChar character = 1 ∨ ofChar character = 2 := by
  unfold ofChar
  split <;> simp

/-- Every character takes at least one column. -/
theorem ofChar_pos (character : Char) : 0 < ofChar character := by
  rcases ofChar_eq_one_or_two character with one | two <;> omega

/-- A text is at least as wide as it is long. -/
theorem length_le_ofText (text : List Char) : text.length ≤ ofText text := by
  induction text with
  | nil => simp
  | cons character rest inductionHypothesis =>
      have := ofChar_pos character
      simp only [List.length_cons, ofText_cons]
      omega

end Columns
end Galley
