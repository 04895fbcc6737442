import Galley.Layout.Options
import Galley.Wrap

/-!
# Regions of lines

The text operations of the layout: blank lines, indentation, trimming at both ends,
bullets, rules, verbatim content and the collapse of lines into one.  Where debug
markers are present they count as nothing: they do not make a line non-blank, and blanks
before or behind them are trimmed.
-/

namespace Galley
namespace Layout

/-- A run of spaces. -/
def spaces (count : Nat) : List Char :=
  List.replicate count ' '

/-- Whether a line shows nothing. -/
def isBlankLine (debug : Bool) (line : List Char) : Bool :=
  Text.allBlank (if debug then Marker.erase line else line)

/-- Whether a symbol may be passed over at the end of a marked line. -/
def isLooseEnd : Symbol → Bool
  | .marker _ => true
  | .char character => character == ' ' || character == '\t'

/-- A marked line without the spaces and tabs between its last text and its end; the
markers among them stay. -/
def trimMarkedEnd (line : List Char) : List Char :=
  let symbols := Marker.symbols line
  let body := Text.dropEndWhile isLooseEnd symbols
  Symbol.spell (body ++ (symbols.drop body.length).filter Symbol.isMarker)

/-- A line without blanks at its end. -/
def trimLineEnd (debug : Bool) (line : List Char) : List Char :=
  if debug then trimMarkedEnd line else Text.trimEnd line

/-- A marked text without the blanks before its first text; the markers among them
stay. -/
def trimMarkedStart (text : List Char) : List Char :=
  let symbols := Marker.symbols text
  let lead := symbols.takeWhile fun symbol => symbol.isMarker || symbol.isBlank
  Symbol.spell (lead.filter Symbol.isMarker ++ symbols.drop lead.length)

/-- A text without blanks at its start. -/
def trimTextStart (debug : Bool) (text : List Char) : List Char :=
  if debug then trimMarkedStart text else Text.trimStart text

/-- Indent every line that shows something and trim its end. -/
def indentLines (debug : Bool) (indent : Nat) (text : List Char) : List Char :=
  Text.unlines ((Text.lines text).map fun line =>
    if isBlankLine debug line then line else spaces indent ++ trimLineEnd debug line)

/-- Lines without the blank ones at the end; the first line always stays. -/
def dropBlankTail (debug : Bool) : List (List Char) → List (List Char)
  | [] => []
  | first :: rest => first :: Text.dropEndWhile (isBlankLine debug) rest

/-- A text without blank lines and blanks at its end. -/
def trimTail (debug : Bool) (text : List Char) : List Char :=
  Text.trimEnd (Text.unlines (dropBlankTail debug (Text.lines (Text.trimEnd text))))

/-- Hang a text under a bullet: the bullet takes the place of the indentation of the
first line that shows something, and blank lines before it are dropped. -/
def hang (debug : Bool) (bullet : List Char) (indent inner : Nat) (body : List Char) : List Char :=
  match (Text.lines body).dropWhile (isBlankLine debug) with
  | [] => spaces indent ++ bullet
  | first :: rest =>
      let leading := min (first.takeWhile (· == ' ')).length inner
      Text.unlines ((spaces indent ++ bullet ++ ' ' :: first.drop leading) :: rest)

/-- A rule of dashes. -/
def rule (width indent : Nat) : List Char :=
  spaces indent ++ List.replicate width '-'

/-- Text with a newline at its end. -/
def closeLine (content : List Char) : List Char :=
  if content.getLast? = some '\n' then content else content ++ ['\n']

/-- Indent the lines of verbatim content that show something. -/
def indentVerbatim (indent : Nat) (content : List Char) : List Char :=
  if indent = 0 then content
  else
    (Text.boundedLines content).flatMap fun line =>
      if Text.allBlank line then line else spaces indent ++ line

/-- Verbatim content between two rules. -/
def verbatim (width indent : Nat) (content : List Char) : List Char :=
  rule width indent ++ '\n' :: indentVerbatim indent (closeLine content)
    ++ rule width indent ++ ['\n']

/-- A text without its newlines and the spaces that follow each; the flag says whether a
newline was just removed. -/
def joinLinesFrom : Bool → List Char → List Char
  | _, [] => []
  | afterBreak, character :: rest =>
      if character = '\n' then joinLinesFrom true rest
      else if afterBreak && character == ' ' then joinLinesFrom true rest
      else character :: joinLinesFrom false rest

/-- A text without its newlines and the spaces that follow each. -/
def joinLines (text : List Char) : List Char :=
  joinLinesFrom false text

/-- A text in which each run of blanks that holds a newline is one space. -/
def collapseBreaks (text : List Char) : List Char :=
  (text.splitBy fun left right => Text.isBlank left == Text.isBlank right).flatMap fun run =>
    if run.contains '\n' then [' '] else run

/-- Words with one space between neighbours. -/
def unwords (words : List (List Char)) : List Char :=
  [' '].intercalate words

/-- A table row on one line. -/
def rowLine (separator : List Char) (indent : Nat) (cells : List (List Char)) : List Char :=
  Text.trimEnd (spaces indent ++ separator.intercalate cells) ++ ['\n']

/-- The content of a cell on one line. -/
def cellContent (text : List Char) : List Char :=
  collapseBreaks (Text.trim text)

/-- A horizontal rule that fills what the indentation leaves of the column budget. -/
def horizontalRule (maxColumn indent : Nat) : List Char :=
  spaces indent ++ List.replicate (max 1 (maxColumn - indent)) '-' ++ ['\n']

/-- Fill a region with span text: wrapped where asked for, indented, and closed by a
newline. -/
def fill (options : Options) (indent : Nat) (wraps : Bool) (text : List Char) : List Char :=
  let start := trimTextStart options.debug text
  let flowed :=
    if wraps && options.wraps then
      Wrap.wrap options.debug ((options.maxColumn : Int) - indent) start
    else start
  trimTail options.debug (indentLines options.debug indent flowed) ++ ['\n']

end Layout
end Galley
