import Galley.Markdown.Entity

/-!
# Escapes

A backslash before a punctuation mark makes the mark plain text.  In the target of a
link, character references are replaced and everything that may not stand in a target is
written byte by byte.
-/

namespace Galley
namespace Markdown

/-- Punctuation marks of ASCII. -/
def isPunctuation (character : Char) : Bool :=
  let code := character.toNat
  (0x21 ≤ code && code ≤ 0x2f) || (0x3a ≤ code && code ≤ 0x40) || (0x5b ≤ code && code ≤ 0x60)
    || (0x7b ≤ code && code ≤ 0x7e)

/-- Remove the backslashes that escape punctuation marks. -/
def unescape : List Char → List Char
  | '\\' :: character :: rest =>
      if isPunctuation character then character :: unescape rest
      else '\\' :: unescape (character :: rest)
  | character :: rest => character :: unescape rest
  | [] => []

/-- The escaped punctuation marks at the start of a text, with their backslashes. -/
def escapedMarks : List Char → List Char
  | '\\' :: character :: rest =>
      if isPunctuation character then '\\' :: character :: escapedMarks rest else []
  | _ => []

/-- Characters that stand for themselves in the target of a link. -/
def isTargetChar (character : Char) : Bool :=
  character.isAlphanum || "_.-~:/?#@!$&()*+,;=%".toList.contains character

/-- A hexadecimal digit, as a capital letter above nine. -/
def hexadecimalDigit (value : Nat) : Char :=
  Char.ofNat (if value < 10 then 0x30 + value else 0x37 + value)

/-- A byte in the target of a link. -/
def percentEncoded (byte : UInt8) : List Char :=
  ['%', hexadecimalDigit (byte.toNat / 16), hexadecimalDigit (byte.toNat % 16)]

/-- The target of a link as it is written out. -/
def targetText (text : List Char) : List Char :=
  (Entity.replace text).flatMap fun character =>
    if isTargetChar character then [character]
    else (String.singleton character).toUTF8.toList.flatMap percentEncoded

end Markdown
end Galley
