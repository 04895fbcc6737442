import Galley.Markdown.InlineForm
import Galley.Markdown.Link
import Galley.Text.Numeral

/-!
# Forms of blocks

The lines that open and close blocks.  A form is looked for at the start of a line; up
to three spaces may stand before it, fewer inside a list whose mark is narrow.
-/

namespace Galley
namespace Markdown
namespace BlockForm

/-- The first line of a text, without its end, and the lines after it. -/
def cutLine (text : List Char) : List Char × List Char :=
  let line := text.takeWhile (· != '\n')
  (line, text.drop (line.length + 1))

/-- The first line of a text with its end, and the lines after it. -/
def cutWholeLine (text : List Char) : List Char × List Char :=
  let width := (cutLine text).1.length + 1
  (text.take width, text.drop width)

/-- The whole lines at the start of a text that pass a test on the text from each line
on, and what follows them.  Only a number of lines is looked at. -/
def spanLines (test : List Char → Bool) : Nat → List Char → List Char × List Char
  | 0, text => ([], text)
  | count + 1, text =>
      if !text.isEmpty && test text then
        let (line, rest) := cutWholeLine text
        let (lines, follows) := spanLines test count rest
        (line ++ lines, follows)
      else ([], text)

/-- The whole lines at the start of a text that pass a test, and what follows them. -/
def leadingLines (test : List Char → Bool) (text : List Char) : List Char × List Char :=
  spanLines test text.length text

/-- Whether a line holds nothing but spaces, tabs and form feeds. -/
def isBlankLine (line : List Char) : Bool :=
  line.all fun character => [' ', '\t', '\x0b', '\x0c'].contains character

/-- Whether a text starts with a blank line that is ended. -/
def startsBlank (text : List Char) : Bool :=
  text.contains '\n' && isBlankLine (cutLine text).1

/-- What follows spaces at the start of a line, where there are no more than a number of
them. -/
def indented? (most : Nat) (line : List Char) : Option (Nat × List Char) :=
  let spaces := InlineForm.run ' ' line
  if spaces ≤ most then some (spaces, line.drop spaces) else none

/-! ## Tabs -/

/-- Replace a tab behind at most three spaces at the start of a line, given what it
becomes behind a number of spaces. -/
def expandTab (width : Nat → Nat) (line : List Char) : List Char :=
  match indented? 3 line with
  | some (spaces, '\t' :: rest) =>
      List.replicate spaces ' ' ++ List.replicate (width spaces) ' ' ++ rest
  | _ => line

/-- Change every line of a text. -/
def mapLines (change : List Char → List Char) (text : List Char) : List Char :=
  Text.unlines ((Text.lines text).map change)

/-- A tab at the start of a line reaches up to a column. -/
def expandTabsTo (column : Nat) : List Char → List Char :=
  mapLines (expandTab (column - ·))

/-- A tab at the start of a line becomes four spaces. -/
def expandTabs : List Char → List Char :=
  mapLines (expandTab fun _ => 4)

/-- Leave out spaces at the start of a line, at most a number of them. -/
def outdent (most : Nat) (line : List Char) : List Char :=
  line.drop (min most (InlineForm.run ' ' line))

/-- Leave out the blank lines at the end of a text. -/
def trimBlankEnd (text : List Char) : List Char :=
  let body := Text.trimEnd text
  let tail := text.drop body.length
  let firstEnd := (tail.takeWhile (· != '\n')).length + 1
  if firstEnd < tail.length then body ++ tail.take firstEnd else text

/-! ## Lines -/

/-- The opening of fenced code. -/
structure Fence where
  /-- The spaces before it. -/
  spaces : Nat
  /-- The mark that it repeats. -/
  mark : Char
  /-- How often it repeats the mark. -/
  count : Nat
  /-- What stands behind the marks. -/
  info : List Char

/-- The opening of fenced code. -/
def fence? (most : Nat) (line : List Char) : Option Fence :=
  (indented? most line).bind fun (spaces, rest) =>
    rest.head?.bind fun mark =>
      let count := InlineForm.run mark rest
      if (mark = '`' ∨ mark = '~') ∧ 3 ≤ count then
        some ⟨spaces, mark, count, (rest.drop count).dropWhile Link.isGap⟩
      else none

/-- Whether a line closes fenced code. -/
def Fence.isClosedBy (fence : Fence) (line : List Char) : Bool :=
  match indented? 3 line with
  | some (_, rest) =>
      fence.count ≤ InlineForm.run fence.mark rest
        && (rest.dropWhile (· == fence.mark)).all Link.isGap
  | none => false

/-- Whether a line is indented as code is: by four spaces or by a tab, with something
behind. -/
def isCodeLine (line : List Char) : Bool :=
  (4 ≤ InlineForm.run ' ' line && 4 < line.length)
    || (match line.dropWhile (· == ' ') with
      | '\t' :: _ :: _ => true
      | _ => false)

/-- The level and the text of a heading. -/
def heading? (most : Nat) (line : List Char) : Option (Nat × List Char) :=
  (indented? most line).bind fun (_, rest) =>
    let level := InlineForm.run '#' rest
    let behind := rest.drop level
    if 1 ≤ level ∧ level ≤ 6 ∧ behind.head?.all Link.isGap then
      let text := Text.trim behind
      let opened := Text.dropEndWhile (· == '#') text
      some (level,
        if opened.isEmpty || opened.getLast?.any Text.isBlank then Text.trimEnd opened else text)
    else none

/-- The level of the heading that a line makes of the paragraph above it. -/
def underline? (line : List Char) : Option Nat :=
  (indented? 3 line).bind fun (_, rest) =>
    let marks := rest.takeWhile fun character => character == '=' || character == '-'
    if (rest.drop marks.length).all Link.isGap then
      marks.getLast?.map fun last => if last == '=' then 1 else 2
    else none

/-- Whether a line is a rule: at least three of one mark, with spaces and tabs between
them. -/
def isRule (most : Nat) (line : List Char) : Bool :=
  match indented? most line with
  | some (_, mark :: rest) =>
      ['-', '_', '*'].contains mark
        && rest.all (fun character => character == mark || Link.isGap character)
        && 2 ≤ rest.count mark
  | _ => false

/-- What follows the mark of a quotation. -/
def quoted? (most : Nat) (line : List Char) : Option (List Char) :=
  (indented? most line).bind fun (_, rest) => ['>'].isPrefixOf? rest

/-- The mark of a list item. -/
structure ItemOpening where
  /-- The spaces before the mark. -/
  spaces : Nat
  /-- The digits of an ordered item. -/
  digits : List Char
  /-- The character that ends the mark. -/
  bullet : Char
  /-- What stands behind the mark. -/
  text : List Char

/-- The column behind the mark of an item. -/
def ItemOpening.width (opening : ItemOpening) : Nat :=
  opening.spaces + opening.digits.length + 1

/-- The mark of a list item, with a number of digits where it is ordered. -/
def itemOpening? (most fewestDigits : Nat) (line : List Char) : Option ItemOpening :=
  (indented? most line).bind fun (spaces, rest) =>
    let digits := rest.takeWhile Text.isDigit
    match rest.drop digits.length with
    | bullet :: text =>
        let isOrdered := (bullet == '.' || bullet == ')') && fewestDigits ≤ digits.length
          && digits.length ≤ 9
        let isPlain := ['*', '+', '-'].contains bullet && digits.isEmpty
        if (isOrdered || isPlain) ∧ text.head?.all Link.isGap then
          some ⟨spaces, digits, bullet, text⟩
        else none
    | [] => none

/-- The mark of a first item, which has at least one digit where it is ordered. -/
def firstItem? (most : Nat) (line : List Char) : Option ItemOpening :=
  itemOpening? most 1 line

/-- The mark of a further item of a list. -/
def nextItem? (most : Nat) (bullet : Char) (line : List Char) : Option ItemOpening :=
  (itemOpening? most 0 line).filter fun opening => opening.bullet == bullet

/-- Markup at the start of a line: how it starts, the characters of its start, and what
follows. -/
def markup? (most : Nat) (text : List Char) :
    Option (Markup.Opening × List Char × List Char) :=
  (indented? most text).bind fun (_, rest) =>
    (Markup.opening? rest).map fun (opening, follows) =>
      (opening, rest.take (rest.length - follows.length), follows)

end BlockForm
end Markdown
end Galley
