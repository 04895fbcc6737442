import Galley.Log
import Galley.Markdown.Token

/-!
# Trees from tokens

Block and inline tokens are mapped to nodes.  Fields are looked at only where a rule
needs them: a missing field has a default, a field of the wrong shape is ignored where
the rule can do without it and is a fault where it cannot.  Tokens without a counterpart
are left out and reported.
-/

namespace Galley
namespace Markdown

/-- The fields of a token; something that is no record has none. -/
def fieldsOf (token : Token) : Reporting Fields :=
  match token.fields? with
  | some fields => pure fields
  | none => throw .noField

/-- The attributes of a token, where they are a record. -/
def attributesOf? (fields : Fields) : Option Fields :=
  match fields.getD "attrs" (.dict []) with
  | .dict entries => some entries
  | _ => none

/-- The children of a token whose rule goes through them one by one.  A text or a record
counts as the list of its characters or names. -/
def elements (token : Token) : Reporting (List Token) :=
  match token with
  | .branch _ children => pure children
  | .leaf fields =>
      match fields.get? Token.childrenKey with
      | none => pure []
      | some (.text text) =>
          pure (text.toList.map fun character => .stray (.text (String.singleton character)))
      | some (.dict entries) => pure (entries.map fun entry => .stray (.text entry.1))
      | some _ => throw .wrongType
  | .stray _ => throw .noField

/-- The level of a heading token; one where the level is no positive number. -/
def headingLevel (fields : Fields) : Level :=
  match (attributesOf? fields).map fun attributes => attributes.getD "level" (.int 1) with
  | some level =>
      match Level.ofDatum level with
      | .ok level => level
      | .error _ => .one
  | none => .one

/-- The language of a code token: the first word of its information text. -/
def codeOptions (fields : Fields) : Reporting Fields :=
  match (attributesOf? fields).bind fun attributes => attributes.get? "info" with
  | none => pure []
  | some (.text info) =>
      match Text.words info.toList with
      | [] => pure []
      | word :: _ => pure [("language", .text (String.ofList word))]
  | some other => if other.isTruthy then throw .noField else pure []

/-- Whether a text starts and ends with given texts. -/
def isBetween (opening closing : String) (text : List Char) : Bool :=
  opening.toList.isPrefixOf text && closing.toList.isSuffixOf text

/-- The kind of raw markup: a comment, a processing instruction, or an element. -/
def markupKind (content : List Char) : Kind :=
  let shown := Text.trim content
  if isBetween "<!--" "-->" shown then .xmlComment
  else if isBetween "<?" "?>" shown then .xmlProcessingInstruction
  else .rawHtmlElement

/-- A node of raw markup in a category. -/
def markupNode (content : Datum) (category : String) : Reporting Node :=
  match content with
  | .text text =>
      pure {
        kind := markupKind text.toList
        payload := .text text
        options := [("category", .text category)] }
  | _ => throw .noField

/-- The concatenated texts of the text tokens among the children.  Other children are
passed over. -/
def plainText (token : Token) : Reporting String := do
  let children ← elements token
  let texts ← children.filterMapM fun child =>
    match child.fields? with
    | some fields =>
        match fields.get? "type" with
        | some (.text "text") =>
            match fields.getD "raw" (.text "") with
            | .text raw => pure (some raw)
            | _ => throw .wrongType
        | _ => pure none
    | none => pure none
  return String.join texts

/-- An entry under a name, where the value is truthy. -/
def entryIfTruthy (name : String) (value : Datum) : Fields :=
  if value.isTruthy then [(name, value)] else []

/-- An image node; the alternative text comes from the children. -/
def imageNode (token : Token) (fields : Fields) : Reporting Node := do
  let attributes := (attributesOf? fields).getD []
  let alternative ← plainText token
  return {
    kind := .image
    attributes :=
      ("src", attributes.getD "url" (.text ""))
        :: entryIfTruthy "alt" (.text alternative)
        ++ entryIfTruthy "title" (attributes.getD "title" .null) }

/-- An abbreviation node; the definition becomes the title. -/
def abbreviationNode (token : Token) (fields : Fields) : Reporting Node := do
  let title := ((attributesOf? fields).map fun attributes =>
    attributes.getD "title" (.text "")).getD (.text "")
  let text ← plainText token
  return {
    kind := .abbreviation
    payload := .text text
    attributes := entryIfTruthy "title" title }

/-- A node that is its payload. -/
def valueNode (kind : Kind) (value : Datum) (options : Fields) : Node :=
  { kind := kind, payload := .data value, options := options }

/-- A node that is its children. -/
def parentNode (kind : Kind) (children : List Node) : Node :=
  { kind := kind, children := children }

/-- A link node around its children. -/
def linkNode (fields : Fields) (children : List Node) : Node :=
  let attributes := (attributesOf? fields).getD []
  { kind := .link
    attributes :=
      ("href", attributes.getD "url" (.text ""))
        :: entryIfTruthy "title" (attributes.getD "title" .null)
    children := children }

/-- The node of an inline record, given how its children are built. -/
def inlineFrom (token : Token) (fields : Fields) (below : Reporting (List Node)) :
    Reporting (Option Node) :=
  let kind := fields.getD "type" (.text "")
  let raw := fields.getD "raw" (.text "")
  match kind with
  | .text "text" => pure (some (valueNode .text raw []))
  | .text "softbreak" => pure (some (valueNode .text (.text "\n") []))
  | .text "linebreak" => pure (some (parentNode .lineBreak []))
  | .text "emphasis" => some <$> parentNode .emphasis <$> below
  | .text "strikethrough" => some <$> parentNode .emphasis <$> below
  | .text "strong" => some <$> parentNode .strong <$> below
  | .text "codespan" => pure (some (valueNode .inlineCode raw []))
  | .text "link" => some <$> linkNode fields <$> below
  | .text "image" => some <$> imageNode token fields
  | .text "inline_html" => some <$> markupNode raw "span"
  | .text "inline_math" => pure (some (valueNode .math raw [("category", .text "span")]))
  | .text "block_math" => pure (some (valueNode .math raw [("category", .text "block")]))
  | .text "abbr" => some <$> abbreviationNode token fields
  | .text "footnote_ref" => pure (some (valueNode .footnote raw []))
  | .text "asciimark_label" => pure (some (valueNode .label raw []))
  | .text "asciimark_reference" => pure (some (valueNode .reference raw []))
  | .text "asciimark_action_item" =>
      pure (some (valueNode .actionItem .null [("assignee", raw)]))
  | .text "asciimark_issue_link" =>
      pure (some (valueNode .issueLink .null [("match", raw)]))
  | _ => do
      Reporting.event (.inlineTokenSkipped kind)
      return none

mutual

/-- The node of an inline token, or none for a token without a counterpart. -/
def inlineNode (token : Token) : Reporting (Option Node) :=
  match token with
  | .stray _ => throw .noField
  | .leaf fields => inlineFrom (.leaf fields) fields (pure [])
  | .branch fields children =>
      inlineFrom (.branch fields children) fields (inlineNodes children)
termination_by structural token

/-- The nodes of inline tokens. -/
def inlineNodes (tokens : List Token) : Reporting (List Node) :=
  match tokens with
  | [] => pure []
  | token :: rest => do
      let node ← inlineNode token
      let others ← inlineNodes rest
      return node.toList ++ others
termination_by structural tokens

end

/-- A cell of a table row. -/
def cellNode (token : Token) : Reporting Node := do
  let fields ← fieldsOf token
  let alignment := ((attributesOf? fields).map fun attributes =>
    attributes.getD "align" .null).getD .null
  let children ← inlineNodes token.children
  return {
    kind := .tableCell
    options := entryIfTruthy "align" alignment
    children := children }

/-- A row of cells from a token whose children are cells. -/
def rowNode (token : Token) : Reporting Node := do
  let cells ← elements token
  parentNode .tableRow <$> cells.mapM cellNode

/-- A section of a table: a head is one row of cells, a body is a list of rows.  Other
sections are left out. -/
def sectionNode? (token : Token) : Reporting (Option Node) := do
  let fields ← fieldsOf token
  match fields.getD "type" (.text "") with
  | .text "table_head" =>
      let row ← rowNode token
      return some (parentNode .tableHead [row])
  | .text "table_body" =>
      let rows ← elements token
      some <$> parentNode .tableBody <$> rows.mapM rowNode
  | _ => return none

/-- A table of sections. -/
def tableNode (token : Token) : Reporting Node := do
  let sections ← elements token
  parentNode .table <$> sections.filterMapM sectionNode?

/-- A list around its items, with the number of its first item where that is not one. -/
def listNode (fields : Fields) (items : List Node) : Node :=
  let attributes := (attributesOf? fields).getD []
  if (attributes.getD "ordered" (.bool false)).isTruthy then
    let start := attributes.getD "start" (.int 1)
    { kind := .orderedList
      options :=
        match start.number? with
        | some number => if number = 1 then [] else [("start", start)]
        | none => []
      children := items }
  else parentNode .unorderedList items

/-- The term of a definition; a text stands in where the term has no children. -/
def termNode (fields : Fields) (children : List Node) : Node :=
  let text := fields.getD "text" .null
  parentNode .definitionTerm
    (if children.isEmpty && text.isTruthy then [valueNode .text text []] else children)

/-- A heading around its children. -/
def headingNode (fields : Fields) (children : List Node) : Node :=
  { kind := .header
    payload := .heading { level := headingLevel fields }
    children := children }

/-- The node of a block record, given how its children are built as blocks and as the
parts of a definition list. -/
def blockFrom (token : Token) (fields : Fields) (blocks parts : Reporting (List Node)) :
    Reporting (Option Node) :=
  let kind := fields.getD "type" (.text "")
  let raw := fields.getD "raw" (.text "")
  match kind with
  | .text "heading" => some <$> headingNode fields <$> inlineNodes token.children
  | .text "paragraph" => some <$> parentNode .paragraph <$> inlineNodes token.children
  | .text "block_text" => some <$> parentNode .paragraph <$> inlineNodes token.children
  | .text "blank_line" => pure (some (parentNode .blank []))
  | .text "block_code" => do
      let options ← codeOptions fields
      return some (valueNode .codeblock raw options)
  | .text "block_quote" => some <$> parentNode .blockquote <$> blocks
  | .text "list" => some <$> listNode fields <$> blocks
  | .text "list_item" => some <$> parentNode .listItem <$> blocks
  | .text "thematic_break" => pure (some (parentNode .horizontalRule []))
  | .text "block_html" => some <$> markupNode raw "block"
  | .text "table" => some <$> tableNode token
  | .text "block_math" => pure (some (valueNode .math raw [("category", .text "block")]))
  | .text "def_list" => some <$> parentNode .definitionList <$> parts
  | _ => do
      Reporting.event (.blockTokenSkipped kind)
      return none

/-- The parts of a definition list whose children are no list: there are none, or they
are no records. -/
def strayParts (token : Token) : Reporting (List Node) := do
  let found ← elements token
  if found.isEmpty then return [] else throw .noField

mutual

/-- The node of a block token, or none for a token without a counterpart. -/
def blockNode (token : Token) : Reporting (Option Node) :=
  match token with
  | .stray _ => throw .noField
  | .leaf fields => blockFrom (.leaf fields) fields (pure []) (strayParts (.leaf fields))
  | .branch fields children =>
      blockFrom (.branch fields children) fields (blockNodes children) (definitionParts children)
termination_by structural token

/-- The nodes of block tokens. -/
def blockNodes (tokens : List Token) : Reporting (List Node) :=
  match tokens with
  | [] => pure []
  | token :: rest => do
      let node ← blockNode token
      let others ← blockNodes rest
      return node.toList ++ others
termination_by structural tokens

/-- A term or a description; other parts of a definition list are left out. -/
def definitionPart (token : Token) : Reporting (Option Node) :=
  match token with
  | .stray _ => throw .noField
  | .leaf fields =>
      match fields.getD "type" (.text "") with
      | .text "def_list_head" => pure (some (termNode fields []))
      | .text "def_list_item" => pure (some (parentNode .definitionDescription []))
      | _ => pure none
  | .branch fields children =>
      match fields.getD "type" (.text "") with
      | .text "def_list_head" => some <$> termNode fields <$> inlineNodes children
      | .text "def_list_item" =>
          some <$> parentNode .definitionDescription <$> blockNodes children
      | _ => pure none
termination_by structural token

/-- The parts of a definition list. -/
def definitionParts (tokens : List Token) : Reporting (List Node) :=
  match tokens with
  | [] => pure []
  | token :: rest => do
      let part ← definitionPart token
      let others ← definitionParts rest
      return part.toList ++ others
termination_by structural tokens

end

/-- The document of a forest of tokens. -/
def documentOf (tokens : List Token) : Reporting Node := do
  let blocks ← blockNodes tokens
  Reporting.event (.blocksRead blocks.length)
  return parentNode .root blocks

end Markdown
end Galley
