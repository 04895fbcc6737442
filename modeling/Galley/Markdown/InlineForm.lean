import Galley.Markdown.Markup
import Galley.Text.Lines
import Galley.Text.WordChar

/-!
# Forms of inline text

The forms that inline content can take inside a text: runs of marks that open emphasis
and the runs that close it, code, breaks, math and addresses.  A form is looked for at
the start of a text; where it depends on what stands before, the character before is
given too.
-/

namespace Galley
namespace Markdown
namespace InlineForm

/-- The run of a mark at the start of a text. -/
def run (mark : Char) (text : List Char) : Nat :=
  (text.takeWhile (· == mark)).length

/-- Whether text that a mark opens may start with the first of these characters. -/
def canOpen (mark : Char) (text : List Char) : Bool :=
  text.head?.any fun character => !Text.isBlank character && character != mark

/-- The run of marks that opens emphasis: at most three, and something to emphasise
behind them.  Low lines open emphasis only at the start of a word. -/
def emphasisRun? (before : Option Char) (text : List Char) : Option (Char × Nat) :=
  match text with
  | mark :: _ =>
      let count := run mark text
      let isOpening :=
        (mark == '*' || (mark == '_' && !before.any Text.isWordChar)) && count ≤ 3
          && canOpen mark (text.drop count)
      if isOpening then some (mark, count) else none
  | [] => none

/-- The length of a form that ends with a run of marks which closes emphasis: an escaped
mark or a character that is neither blank nor a mark, then the run and no further mark.
Low lines close emphasis only at the end of a word. -/
def closingLength? (mark : Char) (count : Nat) (before : Option Char) (text : List Char) :
    Option Nat :=
  let closes (rest : List Char) : Bool :=
    run mark rest == count && (mark != '_' || !(rest.drop count).head?.any Text.isWordChar)
  let slashes := run '\\' text
  let escaped := (text.drop slashes)
  if before != some '\\' && slashes % 2 == 1 && escaped.head? == some mark
      && closes (escaped.drop 1) then
    some (slashes + 1 + count)
  else
    match text with
    | character :: rest =>
        if !Text.isBlank character && character != mark && closes rest then some (1 + count)
        else none
    | [] => none

/-- The text that emphasis spans, and what follows the closing run of marks. -/
def emphasised? (mark : Char) (count : Nat) (before : Option Char) :
    List Char → Option (List Char × List Char)
  | [] => none
  | character :: rest =>
      match closingLength? mark count before (character :: rest) with
      | some length =>
          some ((character :: rest).take (length - count), (character :: rest).drop length)
      | none =>
          (emphasised? mark count (some character) rest).map fun found =>
            (character :: found.1, found.2)

/-- A text up to the end of the first run of backticks of a length, given the number of
backticks just before. -/
def codeFrom (size : Nat) : Nat → List Char → Option (List Char × List Char)
  | ticks, [] => if ticks = size then some ([], []) else none
  | ticks, character :: rest =>
      if character = '`' then
        (codeFrom size (ticks + 1) rest).map fun found => (character :: found.1, found.2)
      else if ticks = size then some ([], character :: rest)
      else (codeFrom size 0 rest).map fun found => (character :: found.1, found.2)

/-- Code text on one line: each line end with the spaces around it becomes a space. -/
def joinLines (text : List Char) : List Char :=
  let isSpace (character : Char) : Bool := character == ' '
  let inner (line : List Char) : List Char := line.dropWhile isSpace
  match Text.lines text with
  | [] => []
  | [line] => line
  | first :: others =>
      let last := inner (others.getLastD [])
      let between := (others.dropLast.map fun line =>
        Text.dropEndWhile isSpace (inner line)).filter (!·.isEmpty)
      List.intercalate [' '] (Text.dropEndWhile isSpace first :: between ++ [last])

/-- Code text without the one space on either side that sets it off. -/
def trimCode (text : List Char) : List Char :=
  if !Text.allBlank text && text.head? == some ' ' && text.getLast? == some ' ' then
    (text.drop 1).dropLast
  else text

/-- Code behind an opening run of backticks, and what follows the closing run, which is
as long. -/
def code? (size : Nat) (text : List Char) : Option (List Char × List Char) :=
  (codeFrom size 0 text).map fun (spanned, rest) =>
    (trimCode (joinLines (spanned.take (spanned.length - size))), rest)

/-- What follows a break that is kept: a backslash or two spaces at the end of a line. -/
def afterHardBreak? (text : List Char) : Option (List Char) :=
  let spaces := run ' ' text
  let start := if spaces = 0 then 1 else spaces
  if (spaces ≥ 2 ∨ text.head? = some '\\') ∧ (text.drop start).head? = some '\n' then
    some (Text.trimStart (text.drop start))
  else none

/-- What follows a break that is a mere line end. -/
def afterSoftBreak? (text : List Char) : Option (List Char) :=
  let rest := text.drop (run ' ' text)
  if rest.head? = some '\n' then some (Text.trimStart rest) else none

/-- Math behind a dollar sign, and what follows the closing sign.  Math stays on one
line and starts with no blank. -/
def math? (text : List Char) : Option (List Char × List Char) :=
  match text with
  | character :: rest =>
      let isInner (inner : Char) : Bool := inner != '$' && inner != '\n'
      if Text.isBlank character then none
      else
        match rest.dropWhile isInner with
        | '$' :: follows => some (character :: rest.takeWhile isInner, follows)
        | _ => none
  | [] => none

/-- The scheme of an address between angle brackets, up to its colon, and what follows
it. -/
def scheme? (text : List Char) : Option (List Char × List Char) :=
  let isInner (character : Char) : Bool :=
    character.isAlphanum || ['.', '+', '-'].contains character
  match text with
  | '<' :: first :: rest =>
      let inner := rest.takeWhile isInner
      match rest.drop inner.length with
      | ':' :: follows =>
          if first.isAlpha ∧ 1 ≤ inner.length ∧ inner.length ≤ 31 then
            some (first :: inner ++ [':'], follows)
          else none
      | _ => none
  | _ => none

/-- An address with a scheme between angle brackets, and what follows it. -/
def address? (text : List Char) : Option (List Char × List Char) :=
  (scheme? text).bind fun (scheme, rest) =>
    let isInner (character : Char) : Bool :=
      character != '<' && character != '>' && ' ' < character
    match rest.dropWhile isInner with
    | '>' :: follows => some (scheme ++ rest.takeWhile isInner, follows)
    | _ => none

/-- Whether a text is a label of a host name. -/
def isHostLabel (label : List Char) : Bool :=
  label.length ≤ 63 && label.head?.any Char.isAlphanum && label.getLast?.any Char.isAlphanum
    && label.all fun character => character.isAlphanum || character == '-'

/-- The labels of a host name. -/
def hostLabels (host : List Char) : List (List Char) :=
  host.splitOn '.'

/-- A mail address between angle brackets, and what follows it. -/
def mailAddress? (text : List Char) : Option (List Char × List Char) :=
  let isLocal (character : Char) : Bool :=
    character.isAlphanum
      || ".!#$%&'*+/=?^_`\x7b|\x7d~-".toList.contains character
  let isHost (character : Char) : Bool :=
    character.isAlphanum || character == '-' || character == '.'
  match text with
  | '<' :: rest =>
      let name := rest.takeWhile isLocal
      match rest.drop name.length with
      | '@' :: behind =>
          let host := behind.takeWhile isHost
          match behind.drop host.length with
          | '>' :: follows =>
              if !name.isEmpty && (hostLabels host).all isHostLabel then
                some (name ++ '@' :: host, follows)
              else none
          | _ => none
      | _ => none
  | _ => none

end InlineForm
end Markdown
end Galley
