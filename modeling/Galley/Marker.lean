import Galley.Text.Blank

/-!
# Debug markers

A debug marker is an opening or closing tag with a class, BLOCK or SPAN, and a kind
name.  Markers take no columns.  A text is read as a list of symbols, each a marker or a
single character; since a marker holds an opening bracket only at its start, no two
markers overlap and the reading is unique.
-/

namespace Galley

/-- A piece of a text: a whole marker or a single character. -/
inductive Symbol where
  | marker (text : List Char)
  | char (character : Char)
  deriving DecidableEq, Repr

namespace Symbol

/-- The text of a symbol. -/
def text : Symbol → List Char
  | .marker text => text
  | .char character => [character]

/-- The text of a list of symbols. -/
def spell (symbols : List Symbol) : List Char :=
  symbols.flatMap text

/-- Whether a symbol is a marker. -/
def isMarker : Symbol → Bool
  | .marker _ => true
  | .char _ => false

/-- Whether a symbol is a blank character. -/
def isBlank : Symbol → Bool
  | .marker _ => false
  | .char character => Text.isBlank character

@[simp] theorem spell_nil : spell [] = [] := rfl

@[simp] theorem spell_cons (symbol : Symbol) (rest : List Symbol) :
    spell (symbol :: rest) = symbol.text ++ spell rest := rfl

@[simp] theorem spell_append (first second : List Symbol) :
    spell (first ++ second) = spell first ++ spell second := by
  simp [spell]

end Symbol

namespace Marker

/-- Characters of a kind name. -/
def isNameChar (character : Char) : Bool :=
  ('a' ≤ character && character ≤ 'z') || character == '-'

/-- The class of block nodes. -/
def blockClass : List Char := ['B', 'L', 'O', 'C', 'K']

/-- The class of span nodes. -/
def spanClass : List Char := ['S', 'P', 'A', 'N']

/-- The marker that opens a kind in a class. -/
def opening (tagClass kind : List Char) : List Char :=
  '<' :: tagClass ++ ':' :: kind ++ ['>']

/-- The marker that closes a kind in a class. -/
def closing (tagClass kind : List Char) : List Char :=
  '<' :: '/' :: tagClass ++ ':' :: kind ++ ['>']

/-- What follows the class of a marker and its colon. -/
def afterClass? (text : List Char) : Option (List Char) :=
  ((blockClass ++ [':']).isPrefixOf? text).or ((spanClass ++ [':']).isPrefixOf? text)

/-- What follows the marker at the start of a text. -/
def rest? : List Char → Option (List Char)
  | '<' :: afterBracket =>
      let afterSlash := (['/'].isPrefixOf? afterBracket).getD afterBracket
      match afterClass? afterSlash with
      | some named =>
          match named.takeWhile isNameChar, named.dropWhile isNameChar with
          | _ :: _, '>' :: rest => some rest
          | _, _ => none
      | none => none
  | _ => none

/-- Length of the marker at the start of a text. -/
def length? (text : List Char) : Option Nat :=
  (rest? text).map fun rest => text.length - rest.length

/-- The symbols of a text after a number of characters that belong to a marker already
read. -/
def symbolsAfter : Nat → List Char → List Symbol
  | _, [] => []
  | skipped + 1, _ :: rest => symbolsAfter skipped rest
  | 0, character :: rest =>
      match length? (character :: rest) with
      | some length =>
          .marker ((character :: rest).take length) :: symbolsAfter (length - 1) rest
      | none => .char character :: symbolsAfter 0 rest

/-- The symbols of a text. -/
def symbols (text : List Char) : List Symbol :=
  symbolsAfter 0 text

/-- The markers of a text, in order. -/
def all (text : List Char) : List (List Char) :=
  (symbols text).filterMap fun symbol =>
    match symbol with
    | .marker marker => some marker
    | .char _ => none

/-- A text without its markers. -/
def erase (text : List Char) : List Char :=
  (symbols text).filterMap fun symbol =>
    match symbol with
    | .marker _ => none
    | .char character => some character

@[simp] theorem symbolsAfter_nil (skipped : Nat) : symbolsAfter skipped [] = [] := by
  cases skipped <;> rfl

@[simp] theorem symbolsAfter_succ (skipped : Nat) (character : Char) (rest : List Char) :
    symbolsAfter (skipped + 1) (character :: rest) = symbolsAfter skipped rest := rfl

/-- Characters of a marker already read are passed over. -/
theorem symbolsAfter_eq_drop (skipped : Nat) (text : List Char) :
    symbolsAfter skipped text = symbols (text.drop skipped) := by
  induction text generalizing skipped with
  | nil => simp [symbols]
  | cons character rest inductionHypothesis =>
      cases skipped with
      | zero => rfl
      | succ fewer => simpa using inductionHypothesis fewer

end Marker

end Galley
