import Galley.Columns
import Galley.Text.Lines

/-!
# Greedy line wrapping

A hard line is cut into pieces: markers, runs of blanks, words, and single wide
characters.  The filler takes the pieces from left to right and starts a new line where
the next piece would pass the budget.  Breaks prefer blanks, which are dropped at the
break; a word wider than the budget is cut between characters.  Markers take no columns
and stay whole; those behind the last blank of a broken line move to the next line.
-/

namespace Galley
namespace Wrap

/-- A piece of a hard line. -/
inductive Piece where
  /-- A debug marker. -/
  | marker (text : List Char)
  /-- A run of blank characters. -/
  | space (text : List Char)
  /-- A run of graphic ASCII characters, or a part of one. -/
  | word (text : List Char)
  /-- Any other character, which may stand at a break. -/
  | wide (character : Char)
  deriving DecidableEq, Repr

namespace Piece

/-- The text of a piece. -/
def text : Piece → List Char
  | .marker text => text
  | .space text => text
  | .word text => text
  | .wide character => [character]

/-- The columns of a piece. -/
def columns : Piece → Nat
  | .marker _ => 0
  | piece => Columns.ofText piece.text

/-- Whether a piece is a marker. -/
def isMarker : Piece → Bool
  | .marker _ => true
  | _ => false

/-- Whether a piece is a run of blanks. -/
def isSpace : Piece → Bool
  | .space _ => true
  | _ => false

/-- Whether a piece is a word or a wide character. -/
def isInk : Piece → Bool
  | .word _ => true
  | .wide _ => true
  | _ => false

/-- The text of a list of pieces. -/
def spell (pieces : List Piece) : List Char :=
  pieces.flatMap text

/-- The columns of a list of pieces. -/
def width : List Piece → Nat
  | [] => 0
  | piece :: rest => piece.columns + width rest

@[simp] theorem spell_nil : spell [] = [] := rfl

@[simp] theorem spell_cons (piece : Piece) (rest : List Piece) :
    spell (piece :: rest) = piece.text ++ spell rest := rfl

@[simp] theorem spell_append (first second : List Piece) :
    spell (first ++ second) = spell first ++ spell second := by
  simp [spell]

@[simp] theorem width_nil : width [] = 0 := rfl

@[simp] theorem width_cons (piece : Piece) (rest : List Piece) :
    width (piece :: rest) = piece.columns + width rest := rfl

@[simp] theorem width_append (first second : List Piece) :
    width (first ++ second) = width first + width second := by
  induction first with
  | nil => simp
  | cons piece rest inductionHypothesis =>
      simp [inductionHypothesis, Nat.add_assoc]

end Piece

/-- A character that is graphic in ASCII, so that words are made of it. -/
def isGraphic (character : Char) : Bool :=
  '!' ≤ character && character ≤ '~'

/-- Put a character before pieces, joining it to a run of its own sort. -/
def consChar (character : Char) (pieces : List Piece) : List Piece :=
  if Text.isBlank character then
    match pieces with
    | .space text :: rest => .space (character :: text) :: rest
    | _ => .space [character] :: pieces
  else if isGraphic character then
    match pieces with
    | .word text :: rest => .word (character :: text) :: rest
    | _ => .word [character] :: pieces
  else .wide character :: pieces

/-- The pieces of a list of symbols: maximal runs of blanks and of graphic characters. -/
def piecesOfSymbols : List Symbol → List Piece
  | [] => []
  | .marker text :: rest => .marker text :: piecesOfSymbols rest
  | .char character :: rest => consChar character (piecesOfSymbols rest)

/-- The pieces of a hard line; markers are told from other text only where they are
asked for. -/
def pieces (markers : Bool) (line : List Char) : List Piece :=
  piecesOfSymbols (if markers then Marker.symbols line else line.map Symbol.char)

/-- The lines finished so far and the pending line. -/
structure Filler where
  /-- Finished lines, in order. -/
  finished : List (List Piece) := []
  /-- Pieces of the pending line, in order. -/
  pending : List Piece := []
  deriving DecidableEq, Repr

namespace Filler

/-- Whether the pending line holds a word or a wide character. -/
def hasInk (filler : Filler) : Bool :=
  filler.pending.any Piece.isInk

/-- Columns taken by the pending line. -/
def used (filler : Filler) : Nat :=
  Piece.width filler.pending

/-- Add a piece to the pending line. -/
def push (filler : Filler) (piece : Piece) : Filler :=
  { filler with pending := filler.pending ++ [piece] }

/-- Forget the blanks of a pending line that holds nothing else but markers. -/
def dropSpace (filler : Filler) : Filler :=
  { filler with pending := filler.pending.filter Piece.isMarker }

/-- A line without blanks at its end. -/
def trimEnd (line : List Piece) : List Piece :=
  Text.dropEndWhile Piece.isSpace line

/-- Cut a line at the first of the blanks behind its last word: what stays, without
blanks at its end, and the markers that move to the next line. -/
def cut (line : List Piece) : List Piece × List Piece :=
  let body := Text.dropEndWhile (fun piece => piece.isSpace || piece.isMarker) line
  let tail := line.drop body.length
  let attached := tail.takeWhile Piece.isMarker
  (body ++ attached, (tail.drop attached.length).filter Piece.isMarker)

/-- Finish the pending line. -/
def breakLine (filler : Filler) : Filler :=
  let (line, carried) := cut filler.pending
  { finished := filler.finished ++ [line], pending := carried }

/-- Add a run of blanks.  Blanks after a break are dropped; a run that does not fit
makes a break, or is dropped together with the indentation before it where the line
holds no word yet. -/
def addSpace (budget : Nat) (filler : Filler) (text : List Char) : Filler :=
  if !filler.finished.isEmpty && !filler.hasInk then filler
  else if budget < filler.used + Columns.ofText text then
    if filler.hasInk then filler.breakLine else filler.dropSpace
  else filler.push (.space text)

/-- Add a character of a word that is wider than the budget. -/
def addPart (budget : Nat) (filler : Filler) (character : Char) : Filler :=
  let ready :=
    if filler.hasInk && budget < filler.used + Columns.ofChar character then filler.breakLine
    else filler
  ready.push (.word [character])

/-- Add a word or a wide character: on the pending line where it fits, else on a new
line, and cut between characters where it is wider than the budget. -/
def addInk (budget : Nat) (filler : Filler) (piece : Piece) : Filler :=
  if filler.used + piece.columns ≤ budget then filler.push piece
  else
    let fresh := if filler.hasInk then filler.breakLine else filler.dropSpace
    if piece.columns ≤ budget then fresh.push piece
    else piece.text.foldl (addPart budget) fresh

/-- Add a piece. -/
def add (budget : Nat) (filler : Filler) : Piece → Filler
  | .marker text => filler.push (.marker text)
  | .space text => filler.addSpace budget text
  | .word text => filler.addInk budget (.word text)
  | .wide character => filler.addInk budget (.wide character)

/-- Add text to the last of some lines. -/
def attach : List (List Piece) → List Piece → List (List Piece)
  | [], _ => []
  | [line], extra => [line ++ extra]
  | line :: others, extra => line :: attach others extra

/-- All lines, the pending one included.  Markers that are left over after a break stay
on the last line. -/
def lines (filler : Filler) : List (List Piece) :=
  if filler.hasInk || filler.finished.isEmpty then filler.finished ++ [trimEnd filler.pending]
  else attach filler.finished filler.pending

end Filler

/-- Fill lines with pieces. -/
def fill (budget : Nat) (pieces : List Piece) : List (List Piece) :=
  (pieces.foldl (Filler.add budget) {}).lines

/-- The lines that a hard line is wrapped into. -/
def wrapLine (markers : Bool) (budget : Nat) (line : List Char) : List (List Char) :=
  (fill budget (pieces markers line)).map Piece.spell

/-- The budget for a requested width: at least one column. -/
def budget (width : Int) : Nat :=
  max 1 width.toNat

/-- Wrap every hard line of a text to a width. -/
def wrap (markers : Bool) (width : Int) (text : List Char) : List Char :=
  Text.unlines ((Text.lines text).flatMap (wrapLine markers (budget width)))

end Wrap
end Galley
