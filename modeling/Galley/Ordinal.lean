import Galley.Document.Kind

/-!
# Ordinals

Ordinal marks of list items: decimal numerals, or letters in which z is followed by aa.
The letter notation is positional with twenty-six digits and no zero.
-/

namespace Galley

/-- The style of an ordinal mark. -/
inductive MarkStyle where
  | decimal
  | lowerAlpha
  | upperAlpha
  deriving DecidableEq, Repr

namespace MarkStyle

/-- The style with a name; a name of no style selects small letters. -/
def ofName (name : String) : MarkStyle :=
  if name == "decimal" then .decimal
  else if name == "upper-alpha" then .upperAlpha
  else .lowerAlpha

/-- The style of the items of an ordered list that a number of ordered lists enclose. -/
def atDepth (enclosing : Nat) : MarkStyle :=
  match enclosing % 3 with
  | 0 => .decimal
  | 1 => .lowerAlpha
  | _ => .upperAlpha

/-- The first letter of a style. -/
def firstLetter : MarkStyle → Char
  | .upperAlpha => 'A'
  | _ => 'a'

end MarkStyle

namespace Ordinal

/-- Letters of a number in the notation without a zero, for an alphabet that starts at a
letter. -/
def letters (first : Char) (number : Nat) : List Char :=
  if number = 0 then []
  else
    letters first ((number - 1) / 26) ++ [Char.ofNat (first.toNat + (number - 1) % 26)]
termination_by number

@[simp] theorem letters_zero (first : Char) : letters first 0 = [] := by
  unfold letters
  rfl

/-- The last letter is the remainder, the letters before it are those of the quotient. -/
theorem letters_succ (first : Char) (number : Nat) :
    letters first (number + 1) =
      letters first (number / 26) ++ [Char.ofNat (first.toNat + number % 26)] := by
  rw [letters]
  simp

/-- The mark of an ordinal; numbers below one are always decimal. -/
def format (number : Int) (style : MarkStyle) : String :=
  if style = .decimal ∨ number < 1 then toString number
  else String.ofList (letters style.firstLetter number.toNat)

end Ordinal

end Galley
