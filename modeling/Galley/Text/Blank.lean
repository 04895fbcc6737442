/-!
# Blank characters

Blank characters separate words and may be dropped where a line is cut.  The class is
Unicode white space together with the four information separators.  Trimming and cutting
into words are defined on lists of characters.
-/

namespace Galley
namespace Text

/-- Unicode white space and the four information separators. -/
def isBlank (character : Char) : Bool :=
  let code := character.toNat
  (0x09 ≤ code && code ≤ 0x0d) || (0x1c ≤ code && code ≤ 0x20) || code == 0x85 || code == 0xa0
    || code == 0x1680 || (0x2000 ≤ code && code ≤ 0x200a) || code == 0x2028 || code == 0x2029
    || code == 0x202f || code == 0x205f || code == 0x3000

/-- A text of blank characters only. -/
def allBlank (text : List Char) : Bool :=
  text.all isBlank

/-- Drop the longest run at the end whose members satisfy the test. -/
def dropEndWhile (test : α → Bool) (items : List α) : List α :=
  (items.reverse.dropWhile test).reverse

@[simp] theorem dropEndWhile_nil (test : α → Bool) : dropEndWhile test [] = [] := rfl

theorem dropEndWhile_append_singleton (test : α → Bool) (items : List α) (last : α) :
    dropEndWhile test (items ++ [last]) =
      if test last then dropEndWhile test items else items ++ [last] := by
  by_cases dropped : test last <;> simp [dropEndWhile, dropped]

/-- Drop blank characters at the start. -/
def trimStart (text : List Char) : List Char :=
  text.dropWhile isBlank

/-- Drop blank characters at the end. -/
def trimEnd (text : List Char) : List Char :=
  dropEndWhile isBlank text

/-- Drop blank characters at both ends. -/
def trim (text : List Char) : List Char :=
  trimEnd (trimStart text)

/-- The maximal runs of characters that are not blank. -/
def words : List Char → List (List Char)
  | [] => []
  | character :: rest =>
      if isBlank character then words rest
      else
        match rest, words rest with
        | [], _ => [[character]]
        | next :: _, found =>
            if isBlank next then [character] :: found
            else
              match found with
              | [] => [[character]]
              | word :: others => (character :: word) :: others

end Text
end Galley
