import Galley.Markdown.Block
import Galley.Markdown.BlockForm

/-!
# Pipe tables

A table is a line of head cells, a line of hyphens and colons that aligns the columns,
and lines of body cells.  Cells are separated by pipes.  Either every line stands
between two pipes or none has to.
-/

namespace Galley
namespace Markdown
namespace Table

open BlockForm (cutLine indented? leadingLines)

/-- Cut a line at its pipes, except for those behind a backslash. -/
def cells : Option Char → List Char → List (List Char)
  | _, [] => [[]]
  | before, character :: rest =>
      match cells (some character) rest with
      | cell :: others =>
          if character = '|' ∧ before ≠ some '\\' then [] :: cell :: others
          else (character :: cell) :: others
      | [] => [[character]]

/-- The cells of a line without the blanks around them. -/
def trimmedCells (line : List Char) : List (List Char) :=
  (cells none (Text.trim line)).map Text.trim

/-- What stands between the first pipe of a line and its last one. -/
def enclosed? (line : List Char) : Option (List Char) :=
  (indented? 3 line).bind fun (_, rest) =>
    match Text.dropEndWhile Link.isGap rest with
    | '|' :: inner => if inner.getLast? = some '|' then some inner.dropLast else none
    | _ => none

/-- The alignment of a column from its cell in the line that aligns the columns. -/
def alignment? (cell : List Char) : Option Alignment :=
  let isHyphens (text : List Char) : Bool := !text.isEmpty && text.all (· == '-')
  match cell with
  | ':' :: rest =>
      if rest.getLast? = some ':' then
        if isHyphens rest.dropLast then some .center else none
      else if isHyphens rest then some .left
      else none
  | _ => if cell.getLast? = some ':' ∧ isHyphens cell.dropLast then some .right else none

/-- Characters of the line that aligns the columns. -/
def isAlignmentChar (character : Char) : Bool :=
  ['-', '|', ' ', ':'].contains character

/-- Whether the line that aligns the columns has nothing wrong between its pipes. -/
def isAlignmentLine (inner : List Char) : Bool :=
  let start := inner.dropWhile (· == ' ')
  start.head?.any (fun character => character == '-' || character == ':')
    && start.all isAlignmentChar

/-- Whether a line without enclosing pipes aligns the columns. -/
def isOpenAlignmentLine (line : List Char) : Bool :=
  match indented? 3 line with
  | some (_, rest) =>
      let behind := rest.dropWhile fun character => character == '-' || character == ':'
      behind.length < rest.length && (behind.dropWhile (· == ' ')).head? == some '|'
        && behind.all isAlignmentChar
  | none => false

/-- A row of as many cells as there are columns. -/
def row? (columns : List (Option Alignment)) (line : List Char) : Option (List Cell) :=
  let texts := trimmedCells line
  if texts.length = columns.length then
    some ((columns.zip texts).map fun (alignment, text) => ⟨alignment, text⟩)
  else none

/-- The lines of the body of a table. -/
def bodyLines (body : List Char) : List (List Char) :=
  (Text.boundedLines body).map (Text.dropEndWhile Text.isLineBoundary)

/-- A table of a head, an alignment and body lines. -/
def assemble (head alignment : List Char) (rows : List (Option (List Char))) : Option Block := do
  let columns := (trimmedCells alignment).map alignment?
  let headCells ← row? columns head
  let rows ← rows.mapM fun line => line.bind (row? columns)
  return .table headCells rows

/-- What stands in a body line between its pipes; a line must hold something. -/
def enclosedRow? (line : List Char) : Option (List Char) :=
  (enclosed? line).filter fun inner => !inner.isEmpty

/-- A table whose lines stand between pipes: absent, malformed, or given with what
follows it. -/
def enclosedTable? (text : List Char) : Option (Option (Block × List Char)) := do
  let (first, behindFirst) := cutLine text
  let (second, body) := cutLine behindFirst
  let head ← enclosedRow? first
  let alignment ← enclosed? second
  if isAlignmentLine alignment ∧ first.length + second.length + 1 < text.length then
    let (lines, rest) := leadingLines (fun text => (enclosed? (cutLine text).1).isSome) body
    return (assemble head alignment ((bodyLines lines).map enclosedRow?)).map fun table =>
      (table, rest.dropWhile (· == '\n'))
  else none

/-- Whether a line without enclosing pipes can be the head of a table. -/
def isOpenHead (line : List Char) : Bool :=
  match indented? 3 line with
  | some (_, first :: rest) => !Text.isBlank first && rest.contains '|'
  | _ => false

/-- A table whose lines need no pipes around them: absent, malformed, or given with what
follows it. -/
def openTable? (text : List Char) : Option (Option (Block × List Char)) :=
  let (first, behindFirst) := cutLine text
  let (second, body) := cutLine behindFirst
  if isOpenHead first && isOpenAlignmentLine second
      && decide (first.length + second.length + 1 < text.length) then
    let (lines, rest) := leadingLines (fun text => (cutLine text).1.contains '|') body
    some ((assemble first second ((bodyLines lines).map some)).map fun table =>
      (table, rest.dropWhile (· == '\n')))
  else none

end Table
end Markdown
end Galley
