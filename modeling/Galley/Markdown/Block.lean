import Galley.Markdown.InlineReading

/-!
# Blocks

What a document is made of before its text is read: a tree of blocks whose leaves hold
text.  The tokens of a block hold the tokens of the text in it.
-/

namespace Galley
namespace Markdown

/-- How the cells of a table column are aligned. -/
inductive Alignment where
  | left
  | center
  | right
  deriving DecidableEq, Repr

/-- The name of an alignment. -/
def Alignment.name : Alignment → String
  | .left => "left"
  | .center => "center"
  | .right => "right"

/-- A cell of a table. -/
structure Cell where
  /-- The alignment of its column, if there is one. -/
  alignment : Option Alignment
  /-- Its text. -/
  text : List Char
  deriving DecidableEq, Repr

/-- A block. -/
inductive Block where
  | heading (level : Nat) (text : List Char)
  | paragraph (text : List Char)
  | blank
  | code (info : Option (List Char)) (text : List Char)
  | quote (blocks : List Block)
  /-- A list of items; an ordered list has the number of its first item. -/
  | list (start : Option Nat) (items : List Block)
  | item (blocks : List Block)
  | rule
  | markup (text : List Char)
  | math (text : List Char)
  | table (head : List Cell) (rows : List (List Cell))
  /-- A list of terms and descriptions. -/
  | definitions (parts : List Block)
  | term (text : List Char)
  | description (blocks : List Block)
  deriving Repr, Inhabited

namespace Block

open InlineReading (Setting readBlock)

/-- A token with no text and the tokens below it. -/
def parentToken (kind : String) (others : Fields) (children : List Token) : Token :=
  .make kind none others (some children)

/-- A token around the tokens of a text. -/
def textToken (setting : Setting) (kind : String) (others : Fields) (text : List Char) : Token :=
  parentToken kind others (Inline.tokens (readBlock setting text))

/-- The token of a table cell. -/
def cellToken (setting : Setting) (inHead : Bool) (cell : Cell) : Token :=
  let alignment : Datum := (cell.alignment.map fun found => Datum.text found.name).getD .null
  textToken setting "table_cell"
    (Inline.attributes [("align", alignment), ("head", .bool inHead)]) cell.text

/-- The tokens of a table. -/
def tableToken (setting : Setting) (head : List Cell) (rows : List (List Cell)) : Token :=
  let rowToken (row : List Cell) : Token :=
    parentToken "table_row" [] (row.map (cellToken setting false))
  parentToken "table" []
    [parentToken "table_head" [] (head.map (cellToken setting true)),
      parentToken "table_body" [] (rows.map rowToken)]

/-- The attributes of a list. -/
def listFields (start : Option Nat) : Fields :=
  match start with
  | none => Inline.attributes [("ordered", .bool false)]
  | some number => Inline.attributes [("ordered", .bool true), ("start", .int number)]

mutual

/-- The token of a block. -/
def token (setting : Setting) (block : Block) : Token :=
  match block with
  | .heading level text =>
      textToken setting "heading" (Inline.attributes [("level", .int level)]) text
  | .paragraph text => textToken setting "paragraph" [] text
  | .blank => .make "blank_line" none [] none
  | .code info text =>
      let fields := match info with
        | some info => Inline.attributes [("info", .text (String.ofList info))]
        | none => []
      .make "block_code" (some (String.ofList text)) fields none
  | .quote blocks => parentToken "block_quote" [] (tokens setting blocks)
  | .list start items => parentToken "list" (listFields start) (tokens setting items)
  | .item blocks => parentToken "list_item" [] (tokens setting blocks)
  | .rule => .make "thematic_break" none [] none
  | .markup text => Inline.rawToken "block_html" text
  | .math text => Inline.rawToken "block_math" text
  | .table head rows => tableToken setting head rows
  | .definitions parts => parentToken "def_list" [] (tokens setting parts)
  | .term text => textToken setting "def_list_head" [] text
  | .description blocks => parentToken "def_list_item" [] (tokens setting blocks)
termination_by structural block

/-- The tokens of blocks. -/
def tokens (setting : Setting) (blocks : List Block) : List Token :=
  match blocks with
  | [] => []
  | block :: rest => block.token setting :: tokens setting rest
termination_by structural blocks

end

end Block

end Markdown
end Galley
