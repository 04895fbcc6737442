import Galley.Markdown.Escape
import Galley.Text.Blank
import Galley.Text.Upper

/-!
# Links

The parts of a link: a text or a label in square brackets, a target, and a title.  Each
reader takes a text that starts with the part and returns the part and the rest of the
text.
-/

namespace Galley
namespace Markdown

/-- Where a link leads. -/
structure Target where
  /-- The address. -/
  url : List Char
  /-- The title, if there is one. -/
  title : Option (List Char) := none
  deriving DecidableEq, Repr, Inhabited

namespace Link

/-- The name under which a label is known: case and the width of blanks make no
difference. -/
def key (label : List Char) : List Char :=
  Text.caseKey (List.intercalate [' '] (Text.words label))

/-- A label of a limited number of marks and characters, up to its closing bracket.  No
bracket may stand in it without a backslash. -/
def labelWithin : Nat → List Char → Option (List Char × List Char)
  | _, ']' :: rest => some ([], rest)
  | count + 1, '\\' :: character :: rest =>
      if character = '\n' then none
      else (labelWithin count rest).map fun found => ('\\' :: character :: found.1, found.2)
  | count + 1, character :: rest =>
      if character = '[' ∨ character = '\\' then none
      else (labelWithin count rest).map fun found => (character :: found.1, found.2)
  | _, _ => none

/-- A label and what follows its closing bracket. -/
def label? (text : List Char) : Option (List Char × List Char) :=
  labelWithin 500 text

/-- The text of a link inside a number of open brackets and behind a number of
backslashes, up to its own closing bracket.  A bracket behind an odd number of
backslashes is plain; behind another even number than zero it opens. -/
def textWithin : Nat → Nat → List Char → Option (List Char × List Char)
  | _, _, [] => none
  | nested, slashes, character :: rest =>
      let isBracket := character == '[' || character == ']'
      let found :=
        if character == ']' && slashes == 0 then
          match nested with
          | 0 => none
          | outer + 1 => textWithin outer 0 rest
        else if isBracket && slashes % 2 == 0 then textWithin (nested + 1) 0 rest
        else textWithin nested (if character == '\\' then slashes + 1 else 0) rest
      if character == ']' && slashes == 0 && nested == 0 then some ([], rest)
      else found.map fun found => (character :: found.1, found.2)

/-- The text of a link and what follows its closing bracket. -/
def text? (text : List Char) : Option (List Char × List Char) :=
  textWithin 0 0 text

/-- Whether a character is a space or a tab. -/
def isGap (character : Char) : Bool :=
  character == ' ' || character == '\t'

/-- Leave out spaces and tabs with at most one newline among them. -/
def dropGap (text : List Char) : List Char :=
  match text.dropWhile isGap with
  | '\n' :: rest => rest.dropWhile isGap
  | rest => rest

/-- An address between angle brackets. -/
def bracketed? (text : List Char) : Option (List Char × List Char) :=
  let isInner (character : Char) : Bool := ['<', '>', '\n', '\\', '\x00'].all (· != character)
  match text with
  | '<' :: rest =>
      match rest.dropWhile isInner with
      | '>' :: after => some (rest.takeWhile isInner, after)
      | _ => none
  | _ => none

/-- Leave out pairs of backslashes. -/
def dropPairs : List Char → List Char
  | '\\' :: '\\' :: rest => dropPairs rest
  | text => text

/-- An address up to a space, a tab, a newline or a closing parenthesis that no
backslash escapes. -/
def bareFrom (escaped : Bool) : List Char → Option (List Char × List Char)
  | [] => none
  | character :: rest =>
      if isGap character || character == '\n' then some ([], character :: rest)
      else if !escaped && (dropPairs (character :: rest)).head? == some ')' then
        some ([], dropPairs (character :: rest))
      else (bareFrom (character == '\\') rest).map fun found => (character :: found.1, found.2)

/-- The address of a link in a line of text. -/
def address? (text : List Char) : Option (List Char × List Char) :=
  let start := dropGap text
  if start.head? = some '<' then bracketed? start else bareFrom false start

/-- The address in a definition: everything up to a blank. -/
def definedAddress? (text : List Char) : Option (List Char × List Char) :=
  let start := dropGap text
  if start.head? = some '<' then bracketed? start
  else
    let word := start.takeWhile fun character => !Text.isBlank character
    if word.isEmpty then none else some (word, start.drop word.length)

/-- The inner text of a title up to its closing mark.  An escaped mark closes the title
only where no other mark does. -/
def titleFrom (mark : Char) : List Char → Option (List Char × List Char)
  | [] => none
  | '\\' :: character :: rest =>
      if isPunctuation character then
        ((titleFrom mark rest).map fun found => ('\\' :: character :: found.1, found.2))
          <|> (if character = mark then some (['\\'], rest) else none)
      else (titleFrom mark (character :: rest)).map fun found => ('\\' :: found.1, found.2)
  | character :: rest =>
      if character = mark then some ([], rest)
      else if character = '\x00' then none
      else (titleFrom mark rest).map fun found => (character :: found.1, found.2)

/-- A title behind at least one space, tab or newline. -/
def title? (text : List Char) : Option (List Char × List Char) :=
  let start := text.dropWhile fun character => isGap character || character == '\n'
  match start with
  | mark :: rest =>
      if start.length < text.length ∧ (mark = '"' ∨ mark = '\'') then
        (titleFrom mark rest).map fun found => (unescape found.1, found.2)
      else none
  | [] => none

/-- A title that is not empty. -/
def titleOf (title : Option (List Char)) : Option (List Char) :=
  title.bind fun text => if text.isEmpty then none else some text

/-- The target of a link behind its opening parenthesis: an address, perhaps a title,
and the closing parenthesis. -/
def target? (text : List Char) : Option (Target × List Char) :=
  (address? text).bind fun (address, afterAddress) =>
    let title := title? afterAddress
    let rest := (title.map (·.2)).getD afterAddress
    match Text.trimStart rest with
    | ')' :: after =>
        some (⟨targetText (unescape address), titleOf (title.map (·.1))⟩, after)
    | _ => none

end Link
end Markdown
end Galley
