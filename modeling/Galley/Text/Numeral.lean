import Galley.Text.Blank

/-!
# Decimal numerals

Digits are the Unicode decimal digits, which come in runs of ten from a zero.  A numeral
may carry blanks around it, a sign, and single low lines between its digits.
-/

namespace Galley
namespace Text

/-- The zeros of all runs of decimal digits. -/
def digitZeros : List Nat := [
  0x30, 0x660, 0x6f0, 0x7c0, 0x966, 0x9e6, 0xa66, 0xae6, 0xb66, 0xbe6, 0xc66, 0xce6, 0xd66,
  0xde6, 0xe50, 0xed0, 0xf20, 0x1040, 0x1090, 0x17e0, 0x1810, 0x1946, 0x19d0, 0x1a80, 0x1a90,
  0x1b50, 0x1bb0, 0x1c40, 0x1c50, 0xa620, 0xa8d0, 0xa900, 0xa9d0, 0xa9f0, 0xaa50, 0xabf0,
  0xff10, 0x104a0, 0x10d30, 0x11066, 0x110f0, 0x11136, 0x111d0, 0x112f0, 0x11450, 0x114d0,
  0x11650, 0x116c0, 0x11730, 0x118e0, 0x11950, 0x11c50, 0x11d50, 0x11da0, 0x16a60, 0x16ac0,
  0x16b50, 0x1d7ce, 0x1d7d8, 0x1d7e2, 0x1d7ec, 0x1d7f6, 0x1e140, 0x1e2f0, 0x1e950, 0x1fbf0]

/-- Value of a decimal digit in any script. -/
def digitValue? (character : Char) : Option Nat :=
  (digitZeros.find? fun base => base ≤ character.toNat && character.toNat < base + 10).map
    fun base => character.toNat - base

/-- A decimal digit in any script. -/
def isDigit (character : Char) : Bool :=
  (digitValue? character).isSome

/-- The number that a run of digits denotes, most significant digit first. -/
def natOfDigits (digits : List Char) : Nat :=
  digits.foldl (fun number digit => 10 * number + (digitValue? digit).getD 0) 0

/-- The longest numeral that is read; beyond it a numeral is refused for its length. -/
def numeralLimit : Nat := 4300

/-- Digits with single low lines between them, the low lines removed. -/
def groupedDigits? : List Char → Option (List Char)
  | [] => none
  | [digit] => if isDigit digit then some [digit] else none
  | digit :: '_' :: rest =>
      if isDigit digit then (groupedDigits? rest).map (digit :: ·) else none
  | digit :: next :: rest =>
      if isDigit digit then (groupedDigits? (next :: rest)).map (digit :: ·) else none

/-- Outcome of reading a numeral. -/
inductive NumeralReading where
  | number (value : Int)
  | malformed
  | tooLong (digits : Nat)
  deriving DecidableEq, Repr

/-- The sign of a numeral and what follows it. -/
def splitSign : List Char → Bool × List Char
  | '-' :: rest => (true, rest)
  | '+' :: rest => (false, rest)
  | text => (false, text)

/-- Blanks that may stand around a numeral: all but the information separators. -/
def isNumeralBlank (character : Char) : Bool :=
  isBlank character && !(0x1c ≤ character.toNat && character.toNat < 0x20)

/-- Read a whole text as a numeral. -/
def readNumeral (text : List Char) : NumeralReading :=
  let shown := dropEndWhile isNumeralBlank (text.dropWhile isNumeralBlank)
  let (negative, body) := splitSign shown
  match groupedDigits? body with
  | none => .malformed
  | some digits =>
      if numeralLimit < digits.length then .tooLong digits.length
      else
        let magnitude : Int := natOfDigits digits
        .number (if negative then -magnitude else magnitude)

end Text
end Galley
