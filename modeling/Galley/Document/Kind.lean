import Galley.Failure

/-!
# Node kinds

The closed set of kinds that a document may hold, each with its name and its category: a
block starts a new region of lines, a span contributes to the line of its enclosing
block, and a flexible kind is told by the node itself.  One more constructor stands for
kinds outside the set, which reach the library only through nodes that were altered
after they were made.
-/

namespace Galley

/-- The kind of a node. -/
inductive Kind where
  | root
  | blank
  | paragraph
  | header
  | horizontalRule
  | table
  | tableRow
  | tableCell
  | tableHead
  | tableBody
  | tableFoot
  | blockquote
  | codeblock
  | unorderedList
  | orderedList
  | listItem
  | definitionList
  | definitionTerm
  | definitionDescription
  | text
  | lineBreak
  | emphasis
  | strong
  | link
  | image
  | inlineCode
  | footnote
  | rawPassthrough
  | entity
  | typographicSymbol
  | smartQuote
  | math
  | abbreviation
  | reference
  | label
  | actionItem
  | issueLink
  | rawHtmlElement
  | xmlComment
  | xmlProcessingInstruction
  /-- A kind outside the closed set. -/
  | foreign (name : String)
  deriving DecidableEq, Repr, Inhabited

namespace Kind

/-- The closed set, in the order in which it is documented. -/
def all : List Kind := [
  .root, .blank, .paragraph, .header, .horizontalRule, .table, .tableRow, .tableCell, .tableHead,
  .tableBody, .tableFoot, .blockquote, .codeblock, .unorderedList, .orderedList, .listItem,
  .definitionList, .definitionTerm, .definitionDescription, .text, .lineBreak, .emphasis, .strong,
  .link, .image, .inlineCode, .footnote, .rawPassthrough, .entity, .typographicSymbol,
  .smartQuote, .math, .abbreviation, .reference, .label, .actionItem, .issueLink, .rawHtmlElement,
  .xmlComment, .xmlProcessingInstruction]

/-- The name of a kind. -/
def name : Kind → String
  | .root => "root"
  | .blank => "blank"
  | .paragraph => "paragraph"
  | .header => "header"
  | .horizontalRule => "horizontal-rule"
  | .table => "table"
  | .tableRow => "table-row"
  | .tableCell => "table-cell"
  | .tableHead => "table-head"
  | .tableBody => "table-body"
  | .tableFoot => "table-foot"
  | .blockquote => "blockquote"
  | .codeblock => "codeblock"
  | .unorderedList => "unordered-list"
  | .orderedList => "ordered-list"
  | .listItem => "list-item"
  | .definitionList => "definition-list"
  | .definitionTerm => "definition-term"
  | .definitionDescription => "definition-description"
  | .text => "text"
  | .lineBreak => "line-break"
  | .emphasis => "emphasis"
  | .strong => "strong"
  | .link => "link"
  | .image => "image"
  | .inlineCode => "inline-code"
  | .footnote => "footnote"
  | .rawPassthrough => "raw-passthrough"
  | .entity => "entity"
  | .typographicSymbol => "typographic-symbol"
  | .smartQuote => "smart-quote"
  | .math => "math"
  | .abbreviation => "abbreviation"
  | .reference => "reference"
  | .label => "label"
  | .actionItem => "action-item"
  | .issueLink => "issue-link"
  | .rawHtmlElement => "raw-html-element"
  | .xmlComment => "xml-comment"
  | .xmlProcessingInstruction => "xml-processing-instruction"
  | .foreign name => name

/-- The kind of the closed set that has a name. -/
def ofName? (name : String) : Option Kind :=
  all.find? fun kind => kind.name == name

/-- The kind with a name, inside the closed set where possible. -/
def ofName (name : String) : Kind :=
  (ofName? name).getD (.foreign name)

/-- The kind of a new node; a name outside the closed set is refused. -/
def read (name : String) : Except Fault Kind :=
  match ofName? name with
  | some kind => .ok kind
  | none => .error (.value (.unknownKind name))

/-- Whether a kind belongs to the closed set. -/
def isKnown : Kind → Bool
  | .foreign _ => false
  | _ => true

/-- The name of a known kind leads back to it. -/
theorem ofName?_name {kind : Kind} (known : kind.isKnown = true) :
    ofName? kind.name = some kind := by
  cases kind with
  | foreign => simp [isKnown] at known
  | _ => decide +kernel

/-- Where a kind may stand. -/
inductive Placement where
  | block
  | span
  | flexible
  deriving DecidableEq, Repr

/-- Whether a kind is always a block, always a span, or told by the node. -/
def placement : Kind → Placement
  | .root | .blank | .paragraph | .header | .horizontalRule | .blockquote | .codeblock
  | .table | .tableRow | .tableCell | .tableHead | .tableBody | .tableFoot
  | .unorderedList | .orderedList | .listItem
  | .definitionList | .definitionTerm | .definitionDescription => .block
  | .text | .lineBreak | .emphasis | .strong | .link | .image | .inlineCode | .footnote | .entity
  | .typographicSymbol | .smartQuote | .abbreviation
  | .reference | .label | .actionItem | .issueLink => .span
  | _ => .flexible

/-- The kinds of the closed set with a placement, by name in increasing order. -/
def namesPlaced (placement : Placement) : List String :=
  ((all.filter fun kind => kind.placement == placement).map name).mergeSort fun left right =>
    decide (left ≤ right)

end Kind

end Galley
