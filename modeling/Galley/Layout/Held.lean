import Galley.Layout.Region
import Galley.Text.Numeral

/-!
# Held code

Inline code does not flow with the span text around it.  Its finished text is held in a
store, and a placeholder, the index in the store between two NUL characters, stands for
it in the span text.  When the span text is laid out, the placeholders are replaced by
what they stand for, each on lines of its own.  A placeholder is recognised by its form
alone, and its index may be written in the digits of any script.
-/

namespace Galley
namespace Layout

/-- What stands for the held code with an index. -/
def placeholder (index : Nat) : List Char :=
  '\x00' :: Nat.toDigits 10 index ++ ['\x00']

/-- The digits of the placeholder at the start of a text. -/
def placeholderDigits? : List Char → Option (List Char)
  | '\x00' :: rest =>
      match rest.takeWhile Text.isDigit, rest.dropWhile Text.isDigit with
      | digit :: digits, '\x00' :: _ => some (digit :: digits)
      | _, _ => none
  | _ => none

/-- The text before the first placeholder, and the digits of each placeholder with the
text behind it, after a number of characters that belong to a placeholder already read. -/
def splitHeldAfter : Nat → List Char → List Char × List (List Char × List Char)
  | _, [] => ([], [])
  | skipped + 1, _ :: rest => splitHeldAfter skipped rest
  | 0, character :: rest =>
      match placeholderDigits? (character :: rest) with
      | some digits =>
          let (piece, others) := splitHeldAfter (digits.length + 1) rest
          ([], (digits, piece) :: others)
      | none =>
          let (piece, others) := splitHeldAfter 0 rest
          (character :: piece, others)

/-- The text before the first placeholder, and the digits of each placeholder with the
text behind it. -/
def splitHeld (text : List Char) : List Char × List (List Char × List Char) :=
  splitHeldAfter 0 text

/-- The held code that digits refer to. -/
def heldAt (held : List (List Char)) (digits : List Char) : Except Fault (List Char) :=
  if Text.numeralLimit < digits.length then .error (.value (.longNumeral digits.length))
  else
    match held[Text.natOfDigits digits]? with
    | some code => .ok code
    | none => .error .outOfRange

/-- Laid out chunks, and markers that wait for a chunk to stand on. -/
structure Assembly where
  /-- Finished chunks, each closed by a newline. -/
  chunks : List (List Char) := []
  /-- Markers between the last chunk and the next. -/
  markers : List Char := []

namespace Assembly

/-- Put waiting markers on the last line of the last chunk. -/
def attachMarkers : List (List Char) → List Char → List (List Char)
  | [], _ => []
  | [chunk], markers => [chunk.dropLast ++ markers ++ ['\n']]
  | chunk :: others, markers => chunk :: attachMarkers others markers

/-- Add a chunk.  Waiting markers go to the end of the chunk before it, or to its own
start where it is the first. -/
def addChunk (assembly : Assembly) (chunk : List Char) : Assembly :=
  if assembly.markers.isEmpty then { assembly with chunks := assembly.chunks ++ [chunk] }
  else
    match assembly.chunks with
    | [] =>
        { chunks := [chunk.takeWhile (· == ' ') ++ assembly.markers ++ chunk.dropWhile (· == ' ')] }
    | chunks => { chunks := attachMarkers chunks assembly.markers ++ [chunk] }

/-- Add a piece of span text between placeholders.  Of a piece that shows nothing only
the markers are kept. -/
def addPiece (options : Options) (indent : Nat) (wraps : Bool) (assembly : Assembly)
    (piece : List Char) : Assembly :=
  if isBlankLine options.debug piece then
    if options.debug then
      { assembly with markers := assembly.markers ++ (Marker.all piece).flatten }
    else assembly
  else assembly.addChunk (fill options indent wraps piece)

/-- All chunks together; markers that still wait go to the end of the last one. -/
def text (assembly : Assembly) : List Char :=
  if assembly.markers.isEmpty then assembly.chunks.flatten
  else (attachMarkers assembly.chunks assembly.markers).flatten

end Assembly

/-- Add placeholders and the pieces behind them to an assembly. -/
def assemble (options : Options) (held : List (List Char)) (indent : Nat) (wraps : Bool) :
    Assembly → List (List Char × List Char) → Except Fault Assembly
  | assembly, [] => .ok assembly
  | assembly, (digits, piece) :: rest => do
      let code ← heldAt held digits
      assemble options held indent wraps
        ((assembly.addChunk code).addPiece options indent wraps piece) rest

/-- Lay out span text whose placeholders refer to held code. -/
def layoutSpan (options : Options) (held : List (List Char)) (indent : Nat) (wraps : Bool)
    (text : List Char) : Except Fault (List Char) := do
  let (first, others) := splitHeld text
  let start := Assembly.addPiece options indent wraps {} first
  let assembly ← assemble options held indent wraps start others
  return assembly.text

end Layout
end Galley
