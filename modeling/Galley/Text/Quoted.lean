import Galley.Text.Printable

/-!
# Quoted text

Messages show a text between quotes: single quotes, or double quotes where the text
holds a single quote and no double quote.  The quote in use, the backslash and all
characters that are not printable are written as escapes.
-/

namespace Galley
namespace Text

/-- The quote that a text is written between. -/
def quoteMark (text : List Char) : Char :=
  if text.contains '\'' && !text.contains '"' then '"' else '\''

/-- Hexadecimal digits of a number, padded with zeros to a width. -/
def paddedHex (width number : Nat) : List Char :=
  let digits := Nat.toDigits 16 number
  List.replicate (width - digits.length) '0' ++ digits

/-- Escape of a character by its code point, in the shortest of three widths. -/
def codePointEscape (character : Char) : List Char :=
  let code := character.toNat
  if code < 0x100 then ['\\', 'x'] ++ paddedHex 2 code
  else if code < 0x10000 then ['\\', 'u'] ++ paddedHex 4 code
  else ['\\', 'U'] ++ paddedHex 8 code

/-- What stands for a character between quotes. -/
def quotedChar (quote character : Char) : List Char :=
  if character == quote || character == '\\' then ['\\', character]
  else if character == '\n' then ['\\', 'n']
  else if character == '\r' then ['\\', 'r']
  else if character == '\t' then ['\\', 't']
  else if isPrintable character then [character]
  else codePointEscape character

/-- A text as messages show it. -/
def quoted (text : String) : String :=
  let characters := text.toList
  let quote := quoteMark characters
  String.ofList (quote :: characters.flatMap (quotedChar quote) ++ [quote])

end Text
end Galley
